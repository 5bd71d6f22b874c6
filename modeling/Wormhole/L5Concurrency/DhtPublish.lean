import Wormhole.L5Concurrency.RoutingTables

/-!
# Announcing to the nodes near an info hash

`_find_nodes` and `announce` of `src/wh/wns/dht.py`. While a query is out, datagrams that have
nothing to do with it enter ids in the routing table, so a reply comes with what was heard
meanwhile. What is replied is up to the others; as `_find_nodes` asks no address twice it is a
function of the address.

* `findNodes_nearest`: what it returns are the entries nearest to the target among all that the
  routing table then holds: what it held before, what was heard and what the nodes asked have named.
* `announce_tokens`: `get_peers` goes to the eight nearest, once to each, and `announce_peer` right
  after it to those that answered with a dict that is not empty, with the token of that answer.
  An answer without a token counts too: `response.get(b"token", b"")` makes up an empty one.
-/
namespace Wormhole.L5.DhtPublish
open Wormhole.L1 Wormhole.L1.Bencode Wormhole.L4.Dht Wormhole.L5.RoutingTables

/-! ## The nearest entries -/

/-- `sorted(self._routing_table.items(), key=...)[:count]`; `none` where a distance raises. -/
def nearestNodes (table : Dict Bencode.Key Addr) (target : Bytes) (count : Nat) :
    Option (List Entry) :=
  (table.entries.mapM fun e => (xorDistance e.1 (.bytes target)).map fun d => (d, e)).map fun es =>
    ((es.insertionSort fun x y => x.1 ≤ y.1).take count).map Prod.snd

variable {table : Dict Bencode.Key Addr} {target : Bytes} {count : Nat} {ys : List Entry}

/-- A key has a distance exactly when it is a byte string. -/
theorem distance_raises (n : Int) (target : Bytes) :
    xorDistance (.int n) (.bytes target) = none := by
  rfl

theorem bytes_of_nearestNodes (h : nearestNodes table target count = some ys) :
    ∀ e ∈ table.entries, ∃ id, e.1 = .bytes id := by
  intro e he
  obtain ⟨key, addr⟩ := e
  cases key with
  | bytes id => exact ⟨id, rfl⟩
  | int n =>
    rw [nearestNodes, mapM_none he (by rw [distance_raises]; rfl)] at h
    cases h

theorem nearestNodes_bytes (h : ∀ e ∈ table.entries, ∃ id, e.1 = .bytes id) (target : Bytes)
    (count : Nat) : nearestNodes table target count =
      some ((sortBy (distance target) table.entries).take count) := by
  have hm : (table.entries.mapM fun e => (xorDistance e.1 (.bytes target)).map fun d => (d, e)) =
      some (table.entries.map fun e => (distance target e, e)) := by
    refine mapM_eq_map fun e he => ?_
    obtain ⟨id, hid⟩ := h e he
    rw [distance, hid, xorDistance_bytes]
    rfl
  have hsort := List.map_insertionSort (r := fun x y => distance target x ≤ distance target y)
    (s := fun x y => x.1 ≤ y.1) (fun e => (distance target e, e)) table.entries
    fun _ _ _ _ => Iff.rfl
  rw [nearestNodes, hm, Option.map_some, ← hsort, ← List.map_take, List.map_map]
  exact congrArg some (List.map_id _)

theorem nearestNodes_nearest (h : nearestNodes table target count = some ys) :
    Nearest (distance target) count table.entries ys := by
  rw [nearestNodes_bytes (bytes_of_nearestNodes h)] at h
  rw [← Option.some.inj h]
  exact nearest_take_sort _ _ _

/-! ## `_find_nodes` -/

/-- What `_query` returns for an address, and what was entered in the routing table meanwhile. -/
structure Reply where
  heard : List Entry
  response : Option Value

structure Finding where
  table : Dict Bencode.Key Addr
  queried : List Addr
  newToQuery : List Addr

def replyNodes (reply : Reply) : List Entry :=
  match reply.response with
  | some response => findNodesEntries response
  | none => []

/-- mirrors src/wh/wns/dht.py:870-888 -/
def ask (reply : Addr → Reply) (s : Finding) (addr : Addr) : Finding :=
  if addr ∈ s.queried then s
  else
    { table := enter (enter s.table (reply addr).heard) (replyNodes (reply addr))
      queried := s.queried ++ [addr]
      newToQuery := s.newToQuery ++
        ((replyNodes (reply addr)).map Prod.snd).filter (· ∉ s.queried ++ [addr]) }

/-- mirrors src/wh/wns/dht.py:865-889 -/
def findRounds (reply : Addr → Reply) : Nat → List Addr → Finding → Finding
  | 0, _, s => s
  | n + 1, toQuery, s =>
    if toQuery = [] then s
    else
      let s := (toQuery.take 8).foldl (ask reply) { s with newToQuery := [] }
      findRounds reply n s.newToQuery s

/-- The nodes found, and the routing table and the addresses asked at the end; `none` where a
distance raises.
mirrors src/wh/wns/dht.py:847-896 -/
def findNodes (reply : Addr → Reply) (table : Dict Bencode.Key Addr) (target : Bytes)
    (count : Nat) : Option (List Entry × Finding) :=
  (nearestNodes table target count).bind fun closest =>
    let s := findRounds reply 3 (closest.map Prod.snd) ⟨table, [], []⟩
    (nearestNodes s.table target count).map fun found => (found, s)

/-! ## What is asked, and what is known then -/

/-- The ids that a reply brings into the routing table. -/
def brought (reply : Reply) : List Bencode.Key := (reply.heard ++ replyNodes reply).map Prod.fst

/-- No address was asked twice, and the table holds what it held and what the replies brought. -/
structure Grown (table : Dict Bencode.Key Addr) (reply : Addr → Reply) (s : Finding) : Prop where
  nodup : s.queried.Nodup
  keys : ∀ k, k ∈ s.table.keys ↔
    k ∈ table.keys ∨ ∃ addr ∈ s.queried, k ∈ brought (reply addr)

variable {reply : Addr → Reply} {s : Finding}

theorem grown_ask (h : Grown table reply s) (addr : Addr) :
    Grown table reply (ask reply s addr) := by
  unfold ask
  split
  · exact h
  · rename_i hnew
    constructor
    · rw [List.nodup_append]
      refine ⟨h.nodup, List.nodup_singleton addr, fun a ha b hb hab => ?_⟩
      rw [List.mem_singleton] at hb
      exact hnew (by rw [← hb, ← hab]; exact ha)
    · intro k
      rw [keys_enter, keys_enter, h.keys k]
      simp only [List.mem_append, List.mem_singleton, or_and_right, exists_or, exists_eq_left,
        or_assoc, brought, List.map_append]

theorem queried_ask (reply : Addr → Reply) (s : Finding) (addr : Addr) :
    addr ∈ (ask reply s addr).queried ∧ s.queried <+: (ask reply s addr).queried ∧
      (ask reply s addr).queried.length ≤ s.queried.length + 1 := by
  unfold ask
  split
  · rename_i h
    exact ⟨h, List.prefix_refl _, by omega⟩
  · exact ⟨by simp, List.prefix_append .., by simp⟩

theorem grown_foldl (toQuery : List Addr) (h : Grown table reply s) :
    Grown table reply (toQuery.foldl (ask reply) s) := by
  induction toQuery generalizing s with
  | nil => exact h
  | cons addr rest ih => exact ih (grown_ask h addr)

theorem queried_foldl (reply : Addr → Reply) (toQuery : List Addr) (s : Finding) :
    (∀ addr ∈ toQuery, addr ∈ (toQuery.foldl (ask reply) s).queried) ∧
      s.queried <+: (toQuery.foldl (ask reply) s).queried ∧
      (toQuery.foldl (ask reply) s).queried.length ≤ s.queried.length + toQuery.length := by
  induction toQuery generalizing s with
  | nil => exact ⟨fun addr h => (by cases h), List.prefix_refl _, Nat.le_refl _⟩
  | cons addr rest ih =>
    obtain ⟨hall, hpre, hlen⟩ := ih (ask reply s addr)
    obtain ⟨hin, hstep, hone⟩ := queried_ask reply s addr
    rw [List.foldl_cons]
    refine ⟨fun a ha => ?_, hstep.trans hpre, ?_⟩
    · rcases List.mem_cons.mp ha with rfl | ha
      · exact hpre.subset hin
      · exact hall a ha
    · rw [List.length_cons]
      omega

theorem grown_rounds (n : Nat) (toQuery : List Addr) (h : Grown table reply s) :
    Grown table reply (findRounds reply n toQuery s) := by
  induction n generalizing toQuery s with
  | zero => exact h
  | succ n ih =>
    rw [findRounds]
    split
    · exact h
    · exact ih _ (grown_foldl _ ⟨h.nodup, h.keys⟩)

theorem queried_rounds (reply : Addr → Reply) (n : Nat) (toQuery : List Addr) (s : Finding) :
    s.queried <+: (findRounds reply n toQuery s).queried ∧
      (findRounds reply n toQuery s).queried.length ≤ s.queried.length + 8 * n := by
  induction n generalizing toQuery s with
  | zero => exact ⟨List.prefix_refl _, Nat.le_refl _⟩
  | succ n ih =>
    rw [findRounds]
    split
    · exact ⟨List.prefix_refl _, by omega⟩
    · obtain ⟨-, hround, hlen⟩ := queried_foldl reply (toQuery.take 8) { s with newToQuery := [] }
      obtain ⟨hrest, hmore⟩ := ih ((toQuery.take 8).foldl (ask reply)
        { s with newToQuery := [] }).newToQuery
        ((toQuery.take 8).foldl (ask reply) { s with newToQuery := [] })
      have htake : (toQuery.take 8).length ≤ 8 := List.length_take_le ..
      refine ⟨hround.trans hrest, ?_⟩
      dsimp only at hlen hmore ⊢
      omega

/-- The nearest ones known at the start are asked. -/
theorem queried_first (reply : Addr → Reply) (n : Nat) (toQuery : List Addr) (s : Finding) :
    ∀ addr ∈ toQuery.take 8, addr ∈ (findRounds reply (n + 1) toQuery s).queried := by
  intro addr h
  rw [findRounds]
  split
  · rename_i hnil
    rw [hnil] at h
    cases h
  · exact (queried_rounds reply n _ _).1.subset ((queried_foldl reply _ _).1 addr h)

/-- What `_find_nodes` returns and leaves behind. -/
structure Finds (reply : Addr → Reply) (table : Dict Bencode.Key Addr) (target : Bytes)
    (count : Nat) (found : List Entry) (s : Finding) : Prop where
  nearest : Nearest (distance target) count s.table.entries found
  grown : Grown table reply s
  asked : s.queried.length ≤ 24
  first : ∀ e ∈ ((sortBy (distance target) table.entries).take count).take 8, e.2 ∈ s.queried

/-- What is returned are the nearest of all the entries known at the end, after the nearest known
at the start and at most 24 addresses altogether were asked. -/
theorem findNodes_nearest {found : List Entry}
    (h : findNodes reply table target count = some (found, s)) :
    Finds reply table target count found s := by
  obtain ⟨closest, hc, h⟩ := Option.bind_eq_some_iff.mp h
  obtain ⟨found', hf, h⟩ := Option.map_eq_some_iff.mp h
  obtain ⟨rfl, rfl⟩ := Prod.mk.inj h
  rw [nearestNodes_bytes (bytes_of_nearestNodes hc)] at hc
  have hgrown : Grown table reply ⟨table, [], []⟩ := ⟨List.nodup_nil, fun k => by simp⟩
  have hlen := (queried_rounds reply 3 (closest.map Prod.snd) ⟨table, [], []⟩).2
  refine ⟨nearestNodes_nearest hf, grown_rounds 3 _ hgrown, by simpa using hlen, fun e he => ?_⟩
  refine queried_first reply 2 _ _ e.2 ?_
  rw [← List.map_take, ← Option.some.inj hc]
  exact List.mem_map_of_mem he

/-! ## `announce` -/

inductive Raised
  | valueError
  | typeError

inductive Call
  | findNode (addr : Addr) (target : Bytes)
  | getPeers (addr : Addr) (infoHash : Bytes)
  | announcePeer (addr : Addr) (args : List (Bencode.Key × Value))

/-- What comes back from the queries of an `announce`. -/
structure Replies where
  findNode : Addr → Reply
  getPeers : Entry → Option Value
  announcePeer : Entry → Option Value

/-- mirrors src/wh/wns/dht.py:783-792 -/
def announceArgs (infoHash : Bytes) (port : Int) (impliedPort : Bool)
    (response : List (Bencode.Key × Value)) : List (Bencode.Key × Value) :=
  [(field "info_hash", .bytes infoHash), (field "port", .int port),
    (field "token", (get response "token").getD (.bytes []))] ++
    if impliedPort then [(field "implied_port", .int 1)] else []

/-- The queries to one node, and whether it counts as notified. An answer that is no dict is falsy
or has no `get`.
mirrors src/wh/wns/dht.py:776-799 -/
def announceTo (replies : Replies) (infoHash : Bytes) (port : Int) (impliedPort : Bool)
    (e : Entry) : List Call × Bool :=
  match replies.getPeers e with
  | some (.dict (field :: fields)) =>
    ([.getPeers e.2 infoHash,
      .announcePeer e.2 (announceArgs infoHash port impliedPort (field :: fields))],
      (replies.announcePeer e).isSome)
  | _ => ([.getPeers e.2 infoHash], false)

/-- The queries made, in order, and how many nodes were notified.
mirrors src/wh/wns/dht.py:761-801 -/
def announce (replies : Replies) (table : Dict Bencode.Key Addr) (infoHash : Bytes) (port : Int)
    (impliedPort : Bool) : Except Raised (List Call × Nat) :=
  if infoHash.length ≠ 20 then .error .valueError
  else
    match findNodes replies.findNode table infoHash 8 with
    | none => .error .typeError
    | some (closest, s) =>
      .ok (s.queried.map (.findNode · infoHash) ++
          closest.flatMap fun e => (announceTo replies infoHash port impliedPort e).1,
        (closest.filter fun e => (announceTo replies infoHash port impliedPort e).2).length)

/-! ## The queries of an `announce` -/

/-- An announcement comes right after the `get_peers` to the same address. -/
def Preceded (infoHash : Bytes) (calls : List Call) : Prop :=
  ∀ before addr args after, calls = before ++ .announcePeer addr args :: after →
    ∃ earlier, before = earlier ++ [.getPeers addr infoHash]

theorem Preceded.append {infoHash : Bytes} {calls more : List Call}
    (h : Preceded infoHash calls) (h' : Preceded infoHash more) :
    Preceded infoHash (calls ++ more) := by
  intro before addr args after hcut
  rcases List.append_eq_append_iff.mp hcut with ⟨mid, hb, hm⟩ | ⟨mid, hc, hm⟩
  · obtain ⟨earlier, rfl⟩ := h' mid addr args after hm
    exact ⟨calls ++ earlier, by rw [hb, List.append_assoc]⟩
  · cases mid with
    | nil =>
      obtain ⟨earlier, he⟩ := h' [] addr args after hm.symm
      have hlen := congrArg List.length he
      simp at hlen
    | cons call mid =>
      rw [List.cons_append] at hm
      obtain ⟨rfl, -⟩ := List.cons.inj hm
      exact h before addr args mid hc

theorem preceded_of_none {infoHash : Bytes} {calls : List Call}
    (h : ∀ addr args, Call.announcePeer addr args ∉ calls) : Preceded infoHash calls := by
  intro before addr args after hcut
  exact absurd (by rw [hcut]; simp) (h addr args)

theorem announceTo_cases (replies : Replies) (infoHash : Bytes) (port : Int) (impliedPort : Bool)
    (e : Entry) :
    (∃ response, response ≠ [] ∧ replies.getPeers e = some (.dict response) ∧
      announceTo replies infoHash port impliedPort e =
        ([.getPeers e.2 infoHash,
          .announcePeer e.2 (announceArgs infoHash port impliedPort response)],
          (replies.announcePeer e).isSome)) ∨
    ((∀ response, response ≠ [] → replies.getPeers e ≠ some (.dict response)) ∧
      announceTo replies infoHash port impliedPort e = ([.getPeers e.2 infoHash], false)) := by
  unfold announceTo
  split
  · rename_i field fields h
    exact .inl ⟨field :: fields, List.cons_ne_nil field fields, h, rfl⟩
  · rename_i hno
    refine .inr ⟨fun response hne h => ?_, rfl⟩
    obtain ⟨field, fields, rfl⟩ := List.exists_cons_of_ne_nil hne
    exact hno field fields h

theorem preceded_announceTo (replies : Replies) (infoHash : Bytes) (port : Int)
    (impliedPort : Bool) (e : Entry) :
    Preceded infoHash (announceTo replies infoHash port impliedPort e).1 := by
  obtain ⟨response, -, -, h⟩ | ⟨-, h⟩ := announceTo_cases replies infoHash port impliedPort e
  · rw [h]
    intro before addr args after hcut
    match before, hcut with
    | [], hcut => cases hcut
    | [call], hcut => cases hcut; exact ⟨[], rfl⟩
    | _ :: _ :: before, hcut =>
      have hlen := congrArg List.length hcut
      simp at hlen
  · rw [h]
    exact preceded_of_none (fun addr args hmem => by simp at hmem)

theorem preceded_flatMap (replies : Replies) (infoHash : Bytes) (port : Int) (impliedPort : Bool)
    (es : List Entry) : Preceded infoHash
      (es.flatMap fun e => (announceTo replies infoHash port impliedPort e).1) := by
  induction es with
  | nil => exact preceded_of_none (fun addr args hmem => by cases hmem)
  | cons e es ih =>
    rw [List.flatMap_cons]
    exact (preceded_announceTo replies infoHash port impliedPort e).append ih

/-- Both of its queries are answered, the first with a dict that is not empty. -/
def acknowledged (replies : Replies) (e : Entry) : Bool :=
  match replies.getPeers e with
  | some (.dict (_ :: _)) => (replies.announcePeer e).isSome
  | _ => false

theorem announceTo_acknowledged (replies : Replies) (infoHash : Bytes) (port : Int)
    (impliedPort : Bool) (e : Entry) :
    (announceTo replies infoHash port impliedPort e).2 = acknowledged replies e := by
  unfold announceTo acknowledged
  cases h : replies.getPeers e with
  | none => rfl
  | some v =>
    cases v with
    | int | bytes | list => rfl
    | dict fields => cases fields <;> rfl

def Call.isFindNode : Call → Bool
  | .findNode .. => true
  | _ => false

def Call.isGetPeers : Call → Bool
  | .getPeers .. => true
  | _ => false

/-- The queries of an `announce` that ended, with what its search ended with. -/
structure Announces (replies : Replies) (infoHash : Bytes) (port : Int) (impliedPort : Bool)
    (closest : List Entry) (s : Finding) (calls : List Call) (notified : Nat) : Prop where
  sought : calls.filter Call.isFindNode = s.queried.map (.findNode · infoHash)
  asked : calls.filter Call.isGetPeers = closest.map fun e => .getPeers e.2 infoHash
  tokens : ∀ addr args, .announcePeer addr args ∈ calls ↔ ∃ e ∈ closest, e.2 = addr ∧
    ∃ response, response ≠ [] ∧ replies.getPeers e = some (.dict response) ∧
      args = announceArgs infoHash port impliedPort response
  order : Preceded infoHash calls
  notified : notified = (closest.filter (acknowledged replies)).length

/-- One node is asked for peers once, and for nodes never. -/
theorem announceTo_filter (replies : Replies) (infoHash : Bytes) (port : Int) (impliedPort : Bool)
    (e : Entry) :
    (announceTo replies infoHash port impliedPort e).1.filter Call.isFindNode = [] ∧
      (announceTo replies infoHash port impliedPort e).1.filter Call.isGetPeers =
        [.getPeers e.2 infoHash] := by
  obtain ⟨response, -, -, h⟩ | ⟨-, h⟩ := announceTo_cases replies infoHash port impliedPort e
  · rw [h]
    exact ⟨rfl, rfl⟩
  · rw [h]
    exact ⟨rfl, rfl⟩

theorem sought_calls (s : Finding) (closest : List Entry) (replies : Replies) (infoHash : Bytes)
    (port : Int) (impliedPort : Bool) :
    (s.queried.map (Call.findNode · infoHash) ++ closest.flatMap fun e =>
        (announceTo replies infoHash port impliedPort e).1).filter Call.isFindNode =
      s.queried.map (Call.findNode · infoHash) := by
  have hseek : (s.queried.map (Call.findNode · infoHash)).filter Call.isFindNode =
      s.queried.map (Call.findNode · infoHash) := by
    refine List.filter_eq_self.mpr fun call h => ?_
    obtain ⟨addr, -, rfl⟩ := List.mem_map.mp h
    rfl
  rw [List.filter_append, hseek, List.filter_flatMap, List.flatMap_eq_nil_iff.mpr fun e _ =>
    (announceTo_filter replies infoHash port impliedPort e).1, List.append_nil]

theorem asked_calls (s : Finding) (closest : List Entry) (replies : Replies) (infoHash : Bytes)
    (port : Int) (impliedPort : Bool) :
    (s.queried.map (Call.findNode · infoHash) ++ closest.flatMap fun e =>
        (announceTo replies infoHash port impliedPort e).1).filter Call.isGetPeers =
      closest.map fun e => .getPeers e.2 infoHash := by
  have hseek : (s.queried.map (Call.findNode · infoHash)).filter Call.isGetPeers = [] := by
    refine List.filter_eq_nil_iff.mpr fun call h => ?_
    obtain ⟨addr, -, rfl⟩ := List.mem_map.mp h
    exact Bool.false_ne_true
  rw [List.filter_append, hseek, List.filter_flatMap, List.nil_append, List.map_eq_flatMap]
  simp only [announceTo_filter]

theorem tokens_calls (s : Finding) (closest : List Entry) (replies : Replies) (infoHash : Bytes)
    (port : Int) (impliedPort : Bool) (addr : Addr) (args : List (Bencode.Key × Value)) :
    Call.announcePeer addr args ∈ s.queried.map (Call.findNode · infoHash) ++
      closest.flatMap (fun e => (announceTo replies infoHash port impliedPort e).1) ↔
        ∃ e ∈ closest, e.2 = addr ∧ ∃ response, response ≠ [] ∧
          replies.getPeers e = some (.dict response) ∧
          args = announceArgs infoHash port impliedPort response := by
  rw [List.mem_append, List.mem_map, List.mem_flatMap]
  constructor
  · intro h
    obtain ⟨a, -, h⟩ | ⟨e, he, h⟩ := h
    · cases h
    · obtain ⟨response, hne, hr, hto⟩ | ⟨-, hto⟩ :=
        announceTo_cases replies infoHash port impliedPort e
      · rw [hto] at h
        simp only [List.mem_cons, List.not_mem_nil, or_false, reduceCtorEq, false_or,
          Call.announcePeer.injEq] at h
        obtain ⟨rfl, rfl⟩ := h
        exact ⟨e, he, rfl, response, hne, hr, rfl⟩
      · rw [hto] at h
        simp at h
  · intro h
    obtain ⟨e, he, rfl, response, hne, hr, rfl⟩ := h
    refine .inr ⟨e, he, ?_⟩
    obtain ⟨response', -, hr', hto⟩ | ⟨hno, -⟩ :=
      announceTo_cases replies infoHash port impliedPort e
    · rw [hr] at hr'
      cases hr'
      rw [hto]
      exact List.mem_cons_of_mem _ List.mem_cons_self
    · exact absurd hr (hno response hne)

/-- **Headline.** Whatever the nodes reply, an `announce` that ends has made its `find_node` queries
to no address twice, asked the nearest eight of all the entries then known for peers, once each and
in this order, and sent those that answered with a dict that is not empty the token of that
answer, right after it. -/
theorem announce_tokens (replies : Replies) (table : Dict Bencode.Key Addr) (infoHash : Bytes)
    (port : Int) (impliedPort : Bool) (calls : List Call) (notified : Nat)
    (h : announce replies table infoHash port impliedPort = .ok (calls, notified)) :
    ∃ closest s, Finds replies.findNode table infoHash 8 closest s ∧
      Announces replies infoHash port impliedPort closest s calls notified := by
  unfold announce at h
  split at h
  · cases h
  · split at h
    · cases h
    · rename_i closest s hfound
      obtain ⟨rfl, rfl⟩ := Prod.mk.inj (Except.ok.inj h)
      refine ⟨closest, s, findNodes_nearest hfound, ?_⟩
      constructor
      · exact sought_calls s closest replies infoHash port impliedPort
      · exact asked_calls s closest replies infoHash port impliedPort
      · exact tokens_calls s closest replies infoHash port impliedPort
      · have hto := preceded_flatMap replies infoHash port impliedPort closest
        refine (preceded_of_none fun addr args hmem => ?_).append hto
        obtain ⟨a, -, h⟩ := List.mem_map.mp hmem
        cases h
      · simp only [announceTo_acknowledged]

/-! ## One node -/

def nodeAddr : Addr := ⟨⟨192, 0, 2, 1⟩, 6881⟩

def oneEntry : Dict Bencode.Key Addr := .set .empty (.bytes (List.replicate 20 1)) nodeAddr

/-- The one node names nobody, and hands out a token. -/
def oneNode : Replies where
  findNode _ := ⟨[], none⟩
  getPeers _ := some (.dict [(field "token", .bytes [7])])
  announcePeer _ := some (.dict [])

theorem announce_oneNode : announce oneNode oneEntry (List.replicate 20 0) 8470 false = .ok
    ([.findNode nodeAddr (List.replicate 20 0), .getPeers nodeAddr (List.replicate 20 0),
      .announcePeer nodeAddr (announceArgs (List.replicate 20 0) 8470 false
        [(field "token", .bytes [7])])], 1) := by
  rfl

theorem tokens_oneNode : ∃ closest s, Finds oneNode.findNode oneEntry (List.replicate 20 0) 8
      closest s ∧
    Announces oneNode (List.replicate 20 0) 8470 false closest s
      [.findNode nodeAddr (List.replicate 20 0), .getPeers nodeAddr (List.replicate 20 0),
        .announcePeer nodeAddr (announceArgs (List.replicate 20 0) 8470 false
          [(field "token", .bytes [7])])] 1 :=
  announce_tokens oneNode oneEntry (List.replicate 20 0) 8470 false _ 1 announce_oneNode

end Wormhole.L5.DhtPublish
