import Wormhole.Core.LTS
import Wormhole.L4App.DhtNode

/-!
# Queries of a DHT node

The runs of a `SimpleDHTNode`: any number of `_query` calls side by side, and
datagrams with any bytes from any address. The steps are those of `step`:

* `query`: a call of `_query`, up to the `await` of its `_send`; `sent`: that
  returns or raises;
* `timeout`, `resume`: `wait_for` gives up; the coroutine goes on;
* `cancel`: the caller is cancelled where it waits;
* `receive`: a datagram, with the work that decoding it takes;
* `stop`.

`query_step` says what a step can do to one query, `pending_step` and
`table_step` what it does to the transaction ids and to the routing table.
-/
namespace Wormhole.L5.DhtQueries
open Wormhole.L1 Wormhole.L1.Bencode Wormhole.L4.Dht

inductive Lbl
  | query (i : QueryId) (addr : Addr) (method : Bytes) (args : List (Bencode.Key × Value))
      (levels : Nat)
  | sent (i : QueryId) (ok : Bool)
  | timeout (i : QueryId)
  | resume (i : QueryId)
  | cancel (i : QueryId)
  | receive (fuel depth levels : Nat) (data : Bytes) (addr : Addr)
  | stop

/-! ## Steps -/

/-- mirrors src/wh/wns/dht.py:537-540 -/
def tidBytes (tid : Nat) : Bytes := beBytes 2 tid

/-- mirrors src/wh/wns/dht.py:695-701 -/
def queryMsg (n : Node) (tid method : Bytes) (args : List (Bencode.Key × Value)) : Value :=
  .dict [(field "t", .bytes tid), (field "y", .bytes (encode "q")), (field "q", .bytes method),
    (field "a", .dict (Dict.assign (field "id") (.bytes n.nodeId) args))]

/-- The `except` clauses of `_query`.
mirrors src/wh/wns/dht.py:709-714 -/
def giveUp (n : Node) (i : QueryId) (q : Query) : Node :=
  { n.setQuery i { q with stage := .returned none } with pending := n.pending.del q.tid }

/-- mirrors src/wh/wns/dht.py:694-708 -/
def startQuery (n : Node) (i : QueryId) (addr : Addr) (method : Bytes)
    (args : List (Bencode.Key × Value)) (levels : Nat) : Node :=
  let tid := (n.nextTid + 1) % 65536
  let q : Query := ⟨addr, tidBytes tid, .pending, .sending⟩
  let n' : Node := { n.setQuery i q with nextTid := tid, pending := n.pending.set (tidBytes tid) i }
  let msg := queryMsg n (tidBytes tid) method args
  -- without a socket `_send` returns before it encodes
  if !n.running || (datagram levels msg).isSome then send levels n' msg addr else giveUp n' i q

/-- `future.cancel()`. -/
def cancelFuture : Future → Future
  | .pending => .cancelled
  | f => f

/-- mirrors src/wh/wns/dht.py:562-582 -/
def stop (n : Node) : Node :=
  { n with
    running := false
    query := fun i => (n.query i).map fun q =>
      if n.pending.values.contains i then { q with future := cancelFuture q.future } else q
    pending := .empty }

/-- mirrors src/wh/wns/dht.py:562-714 -/
def step (n : Node) : Lbl → Option Node
  | .query i addr method args levels =>
    match n.query i with
    | none => some (startQuery n i addr method args levels)
    | some _ => none
  | .sent i ok =>
    match n.query i with
    | some ⟨addr, tid, future, .sending⟩ =>
      if ok then some (n.setQuery i ⟨addr, tid, future, .waiting⟩)
      else some (giveUp n i ⟨addr, tid, future, .sending⟩)
    | _ => none
  | .timeout i =>
    match n.query i with
    | some ⟨addr, tid, .pending, .waiting⟩ => some (n.setQuery i ⟨addr, tid, .timedOut, .waiting⟩)
    -- the response is there, but the coroutine has not run since
    | some ⟨addr, tid, .result _, .waiting⟩ => some (n.setQuery i ⟨addr, tid, .timedOut, .waiting⟩)
    | _ => none
  | .resume i =>
    match n.query i with
    | some ⟨addr, tid, .result v, .waiting⟩ =>
      some (n.setQuery i ⟨addr, tid, .result v, .returned (some v)⟩)
    | some ⟨addr, tid, .timedOut, .waiting⟩ => some (giveUp n i ⟨addr, tid, .timedOut, .waiting⟩)
    | some ⟨addr, tid, .cancelled, .waiting⟩ =>
      some (n.setQuery i ⟨addr, tid, .cancelled, .raised⟩)
    | _ => none
  | .cancel i =>
    match n.query i with
    | some ⟨addr, tid, future, .sending⟩ => some (n.setQuery i ⟨addr, tid, future, .raised⟩)
    | some ⟨addr, tid, future, .waiting⟩ =>
      some (n.setQuery i ⟨addr, tid, cancelFuture future, .raised⟩)
    | _ => none
  | .receive fuel depth levels data addr =>
    if n.running then
      match bdecode fuel depth data with
      | .running => none
      | .raised => some n
      | .done msg => some (handleMessage levels n msg addr)
    else none
  | .stop => some (stop n)

/-! ## What a step does to one query -/

/-- A query is created, goes on, or is answered by the message that a datagram
carries. -/
inductive Evolves (n : Node) (l : Lbl) (i : QueryId) (q' : Query) : Prop
  | created (h : n.query i = none) (hf : q'.future = .pending)
      (hs : ∀ v, q'.stage ≠ .returned (some v))
  | went (q) (h : n.query i = some q) (ha : q'.addr = q.addr) (ht : q'.tid = q.tid)
      (hf : ∀ v, q'.future = .result v → q.future = .result v)
      (hs : ∀ v, q'.stage = .returned (some v) →
        q'.future = .result v ∨
          (q.stage = .returned (some v) ∧ (q.future = .result v → q'.future = .result v)))
  | answered (q fuel depth levels data addr d) (h : n.query i = some q) (ha : q'.addr = q.addr)
      (ht : q'.tid = q.tid) (hl : l = .receive fuel depth levels data addr)
      (hd : bdecode fuel depth data = .done (.dict d)) (hr : isResponse d = true)
      (htid : ∃ tid, msgTid d = .bytes tid ∧ n.pending.get? tid = some i)
      (hp : q.future = .pending) (hf : q'.future = .result (msgResponse d))
      (hs : q'.stage = q.stage)

theorem Evolves.same {n : Node} {l : Lbl} {i : QueryId} {q : Query} (h : n.query i = some q) :
    Evolves n l i q :=
  .went q h rfl rfl (fun _ hv => hv) fun _ hs => .inr ⟨hs, id⟩

/-- One query is replaced, and no answer comes in. -/
theorem Evolves.replaced {n n' : Node} {l : Lbl} {i j : QueryId} {q r q' : Query}
    (h : n'.query j = some q') (hi : n.query i = some q)
    (hn : n'.query = (n.setQuery i r).query) (ha : r.addr = q.addr) (ht : r.tid = q.tid)
    (hf : ∀ v, r.future = .result v → q.future = .result v)
    (hs : ∀ v, r.stage = .returned (some v) → r.future = .result v) : Evolves n l j q' := by
  rw [hn, setQuery_query] at h
  split at h
  · rename_i hj
    cases h
    exact .went q (by rw [hj]; exact hi) ha ht hf fun v hv => .inl (hs v hv)
  · exact .same h

theorem result_of_cancel {f : Future} {v : Value} (h : cancelFuture f = .result v) :
    f = .result v := by
  cases f with
  | pending => cases h
  | result w => exact h
  | timedOut => cases h
  | cancelled => cases h

theorem startQuery_query (n : Node) (i : QueryId) (addr : Addr) (method : Bytes)
    (args : List (Bencode.Key × Value)) (levels : Nat) :
    ∃ stage, (stage = .sending ∨ stage = .returned none) ∧
      ∀ j, (startQuery n i addr method args levels).query j =
        if j = i then some ⟨addr, tidBytes ((n.nextTid + 1) % 65536), .pending, stage⟩
        else n.query j := by
  unfold startQuery
  dsimp only
  split
  · refine ⟨.sending, .inl rfl, fun j => ?_⟩
    rw [(send_responds levels _ _ addr).aside.query]
    rfl
  · refine ⟨.returned none, .inr rfl, fun j => ?_⟩
    simp only [giveUp, setQuery_query]
    split <;> rfl

theorem resolved_evolves {n n1 : Node} {fuel depth levels : Nat} {data : Bytes} {addr : Addr}
    {d : List (Bencode.Key × Value)} {tid : Bytes} {j : QueryId} {q' : Query}
    (hd : bdecode fuel depth data = .done (.dict d)) (hr : isResponse d = true)
    (ht : msgTid d = .bytes tid) (h1 : Resolved n tid (msgResponse d) n1)
    (h : n1.query j = some q') : Evolves n (.receive fuel depth levels data addr) j q' := by
  cases h1 with
  | unknown hu he => rw [he] at h; exact .same h
  | late i hi hf he => rw [he] at h; exact .same h
  | answered i q hi hq hf he =>
    rw [he, setQuery_query] at h
    split at h
    · rename_i hj
      cases h
      rw [hj]
      exact .answered q fuel depth levels data addr d hq rfl rfl rfl hd hr ⟨tid, ht, hi⟩ hf rfl rfl
    · exact .same h

theorem query_step {n n' : Node} {l : Lbl} (hst : step n l = some n') {j : QueryId} {q' : Query}
    (h : n'.query j = some q') : Evolves n l j q' := by
  cases l with
  | query i addr method args levels =>
    simp only [step] at hst
    split at hst
    · rename_i hi
      cases hst
      obtain ⟨stage, hs, hq⟩ := startQuery_query n i addr method args levels
      rw [hq] at h
      split at h
      · rename_i hj
        cases h
        refine .created (by rw [hj]; exact hi) rfl fun v hv => ?_
        rcases hs with rfl | rfl <;> cases hv
      · exact .same h
    · cases hst
  | sent i ok =>
    simp only [step] at hst
    split at hst
    · rename_i addr tid future hi
      split at hst
      · cases hst
        exact .replaced h hi rfl rfl rfl (fun _ hv => hv) (fun _ hv => (by cases hv))
      · cases hst
        exact .replaced h hi rfl rfl rfl
          (fun _ hv => hv) (fun _ hv => (by cases hv))
    · cases hst
  | timeout i =>
    simp only [step] at hst
    split at hst
    · rename_i hi
      cases hst
      exact .replaced h hi rfl rfl rfl (fun _ hv => (by cases hv))
        (fun _ hv => (by cases hv))
    · rename_i hi
      cases hst
      exact .replaced h hi rfl rfl rfl (fun _ hv => (by cases hv))
        (fun _ hv => (by cases hv))
    · cases hst
  | resume i =>
    simp only [step] at hst
    split at hst
    · rename_i hi
      cases hst
      exact .replaced h hi rfl rfl rfl (fun _ hv => hv)
        (fun _ hv => by cases hv; rfl)
    · rename_i addr tid hi
      cases hst
      exact .replaced h hi rfl rfl rfl
        (fun _ hv => hv) (fun _ hv => (by cases hv))
    · rename_i hi
      cases hst
      exact .replaced h hi rfl rfl rfl (fun _ hv => hv) (fun _ hv => (by cases hv))
    · cases hst
  | cancel i =>
    simp only [step] at hst
    split at hst
    · rename_i hi
      cases hst
      exact .replaced h hi rfl rfl rfl (fun _ hv => hv) (fun _ hv => (by cases hv))
    · rename_i addr tid future hi
      cases hst
      exact .replaced h hi rfl rfl rfl (fun v hv => result_of_cancel hv) (fun _ hv => (by cases hv))
    · cases hst
  | receive fuel depth levels data addr =>
    simp only [step] at hst
    split at hst
    · split at hst
      · cases hst
      · cases hst; exact .same h
      · rename_i msg hd
        cases hst
        rcases handleMessage_cases levels n msg addr with ⟨d, rfl, hr, he⟩ | ha
        · obtain ⟨n1, h1, h2⟩ := handleResponse_cases n d addr
          have hq : n1.query j = some q' := by
            rw [he] at h
            rcases h2 with h2 | ⟨id, -, h2⟩ <;> rw [h2] at h <;> exact h
          rcases h1 with rfl | ⟨tid, ht, h1⟩
          · exact .same hq
          · exact resolved_evolves hd hr ht h1 hq
        · rw [ha.query] at h
          exact .same h
    · cases hst
  | stop =>
    cases hst
    simp only [stop, Option.map_eq_some_iff] at h
    obtain ⟨q, hq, rfl⟩ := h
    split
    · refine .went q hq rfl rfl (fun v hv => result_of_cancel hv)
        fun v hs => .inr ⟨hs, fun hf => ?_⟩
      rw [hf]
      rfl
    · exact .same hq

/-! ## Pending transaction ids and the routing table -/

theorem setQuery_isSome {n : Node} {i j : QueryId} {q : Query} (h : (n.query j).isSome = true) :
    ((n.setQuery i q).query j).isSome = true := by
  rw [setQuery_query]
  split
  · rfl
  · exact h

theorem resolved_isSome {n n1 : Node} {tid : Bytes} {v : Value} (h : Resolved n tid v n1)
    {j : QueryId} (hj : (n.query j).isSome = true) : (n1.query j).isSome = true := by
  cases h with
  | unknown _ he => rw [he]; exact hj
  | late _ _ _ he => rw [he]; exact hj
  | answered i q _ _ _ he => rw [he]; exact setQuery_isSome hj

/-- A query is never forgotten. -/
theorem query_persists {n n' : Node} {l : Lbl} (hst : step n l = some n') {j : QueryId}
    (hj : (n.query j).isSome = true) : (n'.query j).isSome = true := by
  cases l with
  | query i addr method args levels =>
    simp only [step] at hst
    split at hst
    · cases hst
      obtain ⟨stage, -, hq⟩ := startQuery_query n i addr method args levels
      rw [hq]
      split
      · rfl
      · exact hj
    · cases hst
  | sent i ok =>
    simp only [step] at hst
    split at hst
    · split at hst <;> cases hst <;> exact setQuery_isSome hj
    · cases hst
  | timeout i =>
    simp only [step] at hst
    split at hst <;> cases hst <;> exact setQuery_isSome hj
  | resume i =>
    simp only [step] at hst
    split at hst <;> cases hst <;> exact setQuery_isSome hj
  | cancel i =>
    simp only [step] at hst
    split at hst <;> cases hst <;> exact setQuery_isSome hj
  | receive fuel depth levels data addr =>
    simp only [step] at hst
    split at hst
    · split at hst
      · cases hst
      · cases hst; exact hj
      · rename_i msg hd
        cases hst
        rcases handleMessage_cases levels n msg addr with ⟨d, rfl, -, he⟩ | ha
        · obtain ⟨n1, h1, h2⟩ := handleResponse_cases n d addr
          have hn1 : (n1.query j).isSome = true := by
            rcases h1 with rfl | ⟨tid, -, h1⟩
            · exact hj
            · exact resolved_isSome h1 hj
          rw [he]
          rcases h2 with h2 | ⟨id, -, h2⟩ <;> rw [h2] <;> exact hn1
        · rw [ha.query]; exact hj
    · cases hst
  | stop =>
    cases hst
    simp only [stop, Option.isSome_map]
    exact hj

/-- Address and transaction id are those of the call. -/
theorem query_keeps {n n' : Node} {l : Lbl} (hst : step n l = some n') {j : QueryId} {q : Query}
    (hq : n.query j = some q) : ∃ q', n'.query j = some q' ∧ q'.addr = q.addr ∧ q'.tid = q.tid := by
  have hsome := query_persists hst (j := j) (by rw [hq]; rfl)
  obtain ⟨q', hq'⟩ := Option.isSome_iff_exists.mp hsome
  refine ⟨q', hq', ?_⟩
  cases query_step hst hq' with
  | created h _ _ => rw [hq] at h; cases h
  | went r h ha ht _ _ => rw [hq] at h; cases h; exact ⟨ha, ht⟩
  | answered r _ _ _ _ _ _ h ha ht _ _ _ _ _ _ _ => rw [hq] at h; cases h; exact ⟨ha, ht⟩

theorem get?_of_del {κ ν : Type} [DecidableEq κ] {d : Dict κ ν} {k j : κ} {v : ν}
    (h : (d.del k).get? j = some v) : d.get? j = some v := by
  rw [Dict.get?_del] at h
  split at h
  · cases h
  · exact h

/-- A transaction id becomes pending for the query that was started with it. -/
theorem pending_step {n n' : Node} {l : Lbl} (hst : step n l = some n') {tid : Bytes} {j : QueryId}
    (h : n'.pending.get? tid = some j) :
    n.pending.get? tid = some j ∨ ∃ q, n'.query j = some q ∧ q.tid = tid := by
  cases l with
  | query i addr method args levels =>
    simp only [step] at hst
    split at hst
    · cases hst
      obtain ⟨stage, -, hq⟩ := startQuery_query n i addr method args levels
      have hset : (n.pending.set (tidBytes ((n.nextTid + 1) % 65536)) i).get? tid = some j := by
        unfold startQuery at h
        dsimp only at h
        split at h
        · rw [(send_responds levels _ _ addr).aside.pending] at h
          exact h
        · exact get?_of_del h
      rw [Dict.get?_set] at hset
      split at hset
      · rename_i htid
        cases hset
        exact .inr ⟨_, by rw [hq, if_pos rfl], htid⟩
      · exact .inl hset
    · cases hst
  | sent i ok =>
    simp only [step] at hst
    split at hst
    · split at hst
      · cases hst; exact .inl h
      · cases hst; exact .inl (get?_of_del h)
    · cases hst
  | timeout i =>
    simp only [step] at hst
    split at hst <;> cases hst <;> exact .inl h
  | resume i =>
    simp only [step] at hst
    split at hst
    · cases hst; exact .inl h
    · cases hst; exact .inl (get?_of_del h)
    · cases hst; exact .inl h
    · cases hst
  | cancel i =>
    simp only [step] at hst
    split at hst <;> cases hst <;> exact .inl h
  | receive fuel depth levels data addr =>
    simp only [step] at hst
    split at hst
    · split at hst
      · cases hst
      · cases hst; exact .inl h
      · rename_i msg hd
        cases hst
        rcases handleMessage_cases levels n msg addr with ⟨d, rfl, -, he⟩ | ha
        · obtain ⟨n1, h1, h2⟩ := handleResponse_cases n d addr
          have hn1 : n1.pending.get? tid = some j := by
            rw [he] at h
            rcases h2 with h2 | ⟨id, -, h2⟩ <;> rw [h2] at h <;> exact h
          rcases h1 with rfl | ⟨t, -, h1⟩
          · exact .inl hn1
          · cases h1 with
            | unknown _ he => rw [he] at hn1; exact .inl hn1
            | late _ _ _ he => rw [he] at hn1; exact .inl (get?_of_del hn1)
            | answered _ _ _ _ _ he => rw [he] at hn1; exact .inl (get?_of_del hn1)
        · rw [ha.pending] at h
          exact .inl h
    · cases hst
  | stop => cases hst; cases h

/-- What a datagram enters in the routing table: the id of a response, with its sender. -/
def heard : Lbl → Option (Bencode.Key × Addr)
  | .receive fuel depth _ data addr =>
    match bdecode fuel depth data with
    | .done (.dict d) =>
      if isResponse d ∧ (msgTid d).key.isSome then (responseId d).map fun id => (id, addr)
      else none
    | _ => none
  | _ => none

theorem handleMessage_table (levels : Nat) (n : Node) (d : List (Bencode.Key × Value))
    (addr : Addr) :
    (handleMessage levels n (.dict d) addr).routingTable =
      match if isResponse d ∧ (msgTid d).key.isSome then (responseId d).map fun id => (id, addr)
        else none with
      | some e => n.routingTable.set e.1 e.2
      | none => n.routingTable := by
  by_cases hr : isResponse d = true
  · rw [handleMessage_response hr, handleResponse_table]
    cases (msgTid d).key with
    | none => simp
    | some tid => cases responseId d <;> simp [hr]
  · rw [if_neg fun h => hr h.1]
    rcases handleMessage_cases levels n (.dict d) addr with ⟨e, he, hre, -⟩ | ha
    · cases he
      exact absurd hre hr
    · exact ha.routingTable

theorem table_step {n n' : Node} {l : Lbl} (hst : step n l = some n') :
    n'.routingTable = match heard l with
      | some e => n.routingTable.set e.1 e.2
      | none => n.routingTable := by
  cases l with
  | query i addr method args levels =>
    simp only [step] at hst
    split at hst
    · cases hst
      unfold startQuery
      dsimp only
      split
      · exact (send_responds levels _ _ addr).aside.routingTable
      · rfl
    · cases hst
  | sent i ok =>
    simp only [step] at hst
    split at hst
    · split at hst <;> cases hst <;> rfl
    · cases hst
  | timeout i =>
    simp only [step] at hst
    split at hst <;> cases hst <;> rfl
  | resume i =>
    simp only [step] at hst
    split at hst <;> cases hst <;> rfl
  | cancel i =>
    simp only [step] at hst
    split at hst <;> cases hst <;> rfl
  | receive fuel depth levels data addr =>
    simp only [step] at hst
    split at hst
    · split at hst
      · cases hst
      · rename_i hd
        cases hst
        rw [heard, hd]
      · rename_i msg hd
        cases hst
        rw [heard, hd]
        cases msg with
        | dict d => exact handleMessage_table levels n d addr
        | int k => rfl
        | bytes bs => rfl
        | list xs => rfl
    · cases hst
  | stop => cases hst; rfl

theorem heard_eq {l : Lbl} {id : Bencode.Key} {a : Addr} (h : heard l = some (id, a)) :
    ∃ fuel depth levels data d, l = .receive fuel depth levels data a ∧
      bdecode fuel depth data = .done (.dict d) ∧ isResponse d = true ∧ responseId d = some id := by
  unfold heard at h
  split at h
  · rename_i fuel depth levels data addr
    split at h
    · rename_i d hd
      split at h
      · rename_i hr
        obtain ⟨id', hid, he⟩ := Option.map_eq_some_iff.mp h
        obtain ⟨rfl, rfl⟩ := Prod.mk.inj he
        exact ⟨fuel, depth, levels, data, d, rfl, hd, hr.1, hid⟩
      · cases h
    · cases h
  · cases h

end Wormhole.L5.DhtQueries
