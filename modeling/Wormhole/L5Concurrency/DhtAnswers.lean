import Wormhole.L5Concurrency.RoutingTables

/-!
# Answers of the addressee

`_handle_message` goes by the transaction id alone, and `bootstrap` and
`_find_nodes` enter whatever nodes an answer names. What a query returns is the
answer of the node that was asked, and the routing table has only addresses
that answered a query, in every run whose responses come from where their
transaction id was sent and in whose answers the callers find only nodes that
have answered themselves (`answered_by_addressee`); nothing in the code sees to
either (`forged_answer`).
-/
namespace Wormhole.L5.DhtAnswers
open Wormhole.L1 Wormhole.L1.Bencode Wormhole.L4.Dht Wormhole.L5.DhtQueries
  Wormhole.L5.RoutingTables

abbrev Lbl := RoutingTables.Lbl

variable (nodeId token : Bytes)

/-- The datagram is a response under the transaction id of the query. -/
structure Reply (n : Node) (i : QueryId) (q : Query) (fuel depth : Nat) (data : Bytes)
    (d : List (Bencode.Key × Value)) : Prop where
  asked : n.query i = some q
  read : bdecode fuel depth data = .done (.dict d)
  response : isResponse d = true
  tid : msgTid d = .bytes q.tid

/-- A query got its result `v` from a datagram of `q.addr` under its transaction id. -/
def Carried (es : List Lbl) (i : QueryId) (q : Query) (v : Value) : Prop :=
  ∃ es1 fuel depth levels data d es2 n q1,
    es = es1 ++ .node (.receive fuel depth levels data q.addr) :: es2 ∧
    (RoutingTables.lts nodeId token).Run (Node.init nodeId token) es1 n ∧
    Reply n i q1 fuel depth data d ∧ q1.addr = q.addr ∧ q1.tid = q.tid ∧ q1.future = .pending ∧
    msgResponse d = v

/-- `addr` answered a query that was sent to it. -/
def Responded (es : List Lbl) (addr : Addr) : Prop :=
  ∃ es1 fuel depth levels data d es2 n i q,
    es = es1 ++ .node (.receive fuel depth levels data addr) :: es2 ∧
    (RoutingTables.lts nodeId token).Run (Node.init nodeId token) es1 n ∧
    Reply n i q fuel depth data d ∧ q.addr = addr

/-- What comes back comes from the node that was asked. -/
structure FromAddressee (es : List Lbl) (n : Node) : Prop where
  answers : ∀ i q v, n.query i = some q → q.stage = .returned (some v) →
    Carried nodeId token es i q v
  routes : ∀ id addr, n.routingTable.get? id = some addr → Responded nodeId token es addr

/-- A response under a pending transaction id comes from the address of the pending query, and one
that carries an id from an address that its transaction id was sent to. The nodes that an answer
names when its caller goes on have answered a query before. -/
def Solicited (es : List Lbl) (n : Node) : Lbl → Prop
  | .node (.receive fuel depth _ data addr) => ∀ d, bdecode fuel depth data = .done (.dict d) →
      isResponse d = true →
      (∀ tid i q, msgTid d = .bytes tid → n.pending.get? tid = some i → n.query i = some q →
        q.future = .pending → q.addr = addr) ∧
      (responseId d ≠ none → ∃ i q, n.query i = some q ∧ q.addr = addr ∧ msgTid d = .bytes q.tid)
  | .node _ => True
  | l => ∀ e ∈ named n l, Responded nodeId token es e.2

/-- Every step of the run meets the condition, in the state and after the steps before it. -/
def SolicitedRun (es : List Lbl) : Prop :=
  ∀ es1 l es2 n, es = es1 ++ l :: es2 →
    (RoutingTables.lts nodeId token).Run (Node.init nodeId token) es1 n →
    Solicited nodeId token es1 n l

/-- The invariant behind `FromAddressee`. -/
structure Traced (es : List Lbl) (n : Node) : Prop where
  pending : ∀ tid i, n.pending.get? tid = some i → ∃ q, n.query i = some q ∧ q.tid = tid
  results : ∀ i q v, n.query i = some q → q.future = .result v → Carried nodeId token es i q v
  returned : ∀ i q v, n.query i = some q → q.stage = .returned (some v) → q.future = .result v
  routes : ∀ id addr, n.routingTable.get? id = some addr → Responded nodeId token es addr

variable {nodeId token}

theorem Carried.extend {es : List Lbl} {i : QueryId} {q q' : Query} {v : Value}
    (h : Carried nodeId token es i q v) (ha : q'.addr = q.addr) (ht : q'.tid = q.tid) (l : Lbl) :
    Carried nodeId token (es ++ [l]) i q' v := by
  obtain ⟨es1, fuel, depth, levels, data, d, es2, n, q1, he, hr, hd, hqa, hqt, hrest⟩ := h
  refine ⟨es1, fuel, depth, levels, data, d, es2 ++ [l], n, q1, ?_, hr, hd, hqa.trans ha.symm,
    hqt.trans ht.symm, hrest⟩
  rw [he, ha, List.append_assoc, List.cons_append]

theorem Responded.extend {es : List Lbl} {addr : Addr} (h : Responded nodeId token es addr)
    (l : Lbl) : Responded nodeId token (es ++ [l]) addr := by
  obtain ⟨es1, fuel, depth, levels, data, d, es2, n, i, q, he, hrest⟩ := h
  refine ⟨es1, fuel, depth, levels, data, d, es2 ++ [l], n, i, q, ?_, hrest⟩
  rw [he, List.append_assoc, List.cons_append]

/-- Who gave a query its result has answered. -/
theorem Carried.responded {es : List Lbl} {i : QueryId} {q : Query} {v : Value}
    (h : Carried nodeId token es i q v) : Responded nodeId token es q.addr := by
  obtain ⟨es1, fuel, depth, levels, data, d, es2, n, q1, he, hr, hd, hqa, -⟩ := h
  exact ⟨es1, fuel, depth, levels, data, d, es2, n, i, q1, he, hr, hd, hqa⟩

theorem traced_init : Traced nodeId token [] (Node.init nodeId token) :=
  ⟨fun _ _ h => (by cases h), fun _ _ _ h => (by cases h), fun _ _ _ h => (by cases h),
    fun _ _ h => (by cases h)⟩

/-- A step of the node itself, but for the routing table. -/
theorem queries_step {es : List Lbl} {n n' : Node} {l : DhtQueries.Lbl}
    (hr : (RoutingTables.lts nodeId token).Run (Node.init nodeId token) es n)
    (h : Traced nodeId token es n) (hs : Solicited nodeId token es n (.node l))
    (hst : DhtQueries.step n l = some n') :
    (∀ tid i, n'.pending.get? tid = some i → ∃ q, n'.query i = some q ∧ q.tid = tid) ∧
      (∀ i q v, n'.query i = some q → q.future = .result v →
        Carried nodeId token (es ++ [.node l]) i q v) ∧
      ∀ i q v, n'.query i = some q → q.stage = .returned (some v) → q.future = .result v := by
  refine ⟨fun tid i hp => ?_, fun i q v hq hf => ?_, fun i q v hq hv => ?_⟩
  · rcases pending_step hst hp with hp | hnew
    · obtain ⟨q, hq, ht⟩ := h.pending tid i hp
      obtain ⟨q', hq', -, ht'⟩ := query_keeps hst hq
      exact ⟨q', hq', ht'.trans ht⟩
    · exact hnew
  · cases query_step hst hq with
    | created _ hpend _ => rw [hpend] at hf; cases hf
    | went r hr' ha ht hres _ => exact (h.results i r v hr' (hres v hf)).extend ha ht _
    | answered r fuel depth levels data addr d hq0 ha ht hl hd hresp htid hp hf' _ =>
      obtain ⟨tid, hmsg, hpend⟩ := htid
      subst hl
      obtain ⟨q0, hq0', htid0⟩ := h.pending tid i hpend
      rw [hq0] at hq0'
      cases hq0'
      have haddr := (hs d hd hresp).1 tid i r hmsg hpend hq0 hp
      refine ⟨es, fuel, depth, levels, data, d, [], n, r, by rw [ha, haddr], hr,
        ⟨hq0, hd, hresp, by rw [hmsg, htid0]⟩, ha.symm, ht.symm, hp, ?_⟩
      rw [hf'] at hf
      cases hf
      rfl
  · cases query_step hst hq with
    | created _ hno hs => exact absurd hv (hs v)
    | went r hr' _ _ _ hstage =>
      rcases hstage v hv with hf | ⟨hold, hf⟩
      · exact hf
      · exact hf (h.returned i r v hr' hold)
    | answered r _ _ _ _ _ _ hq0 _ _ _ _ _ _ hp hf' hstage =>
      rw [hstage] at hv
      have := h.returned i r v hq0 hv
      rw [hp] at this
      cases this

theorem routes_step {es : List Lbl} {n n' : Node} {l : Lbl}
    (hr : (RoutingTables.lts nodeId token).Run (Node.init nodeId token) es n)
    (h : Traced nodeId token es n) (hs : Solicited nodeId token es n l)
    (hst : RoutingTables.step n l = some n') {id : Bencode.Key} {addr : Addr}
    (hid : n'.routingTable.get? id = some addr) : Responded nodeId token (es ++ [l]) addr := by
  obtain hold | hnew := entry_step hst hid
  · exact (h.routes id addr hold).extend l
  cases hnew with
  | heard l' hl hheard =>
    obtain ⟨fuel, depth, levels, data, d, rfl, hd, hresp, hrid⟩ := heard_eq hheard
    subst hl
    obtain ⟨i, q, hq, ha, ht⟩ := (hs d hd hresp).2 (by rw [hrid]; simp)
    exact ⟨es, fuel, depth, levels, data, d, [], n, i, q, rfl, hr, ⟨hq, hd, hresp, ht⟩, ha⟩
  | answer i tid future d hq _ =>
    exact (h.results i _ _ hq (h.returned i _ _ hq rfl)).responded.extend l
  | named hn =>
    cases l with
    | node l => cases hn
    | bootstrapAnswer i => exact (hs _ hn).extend _
    | findNodesAnswer i => exact (hs _ hn).extend _

theorem traced_step {es : List Lbl} {n n' : Node} {l : Lbl}
    (hr : (RoutingTables.lts nodeId token).Run (Node.init nodeId token) es n)
    (h : Traced nodeId token es n) (hs : Solicited nodeId token es n l)
    (hst : RoutingTables.step n l = some n') : Traced nodeId token (es ++ [l]) n' := by
  have hroutes : ∀ id addr, n'.routingTable.get? id = some addr →
      Responded nodeId token (es ++ [l]) addr := fun _ _ hid => routes_step hr h hs hst hid
  rcases RoutingTables.step_cases hst with ⟨l', rfl, hst'⟩ | ⟨table, rfl⟩
  · obtain ⟨hp, hres, hret⟩ := queries_step hr h hs hst'
    exact ⟨hp, hres, hret, hroutes⟩
  · exact ⟨h.pending, fun i q v hq hf => (h.results i q v hq hf).extend rfl rfl l, h.returned,
      hroutes⟩

/-- **Headline.** In every run whose answers are solicited, what a query returns came from the
address it was sent to under its own transaction id, and every address in the routing table has
answered a query. -/
theorem answered_by_addressee (es : List Lbl) (n : Node)
    (h : (RoutingTables.lts nodeId token).Run (Node.init nodeId token) es n)
    (hs : SolicitedRun nodeId token es) : FromAddressee nodeId token es n := by
  have ht : es <+: es → Traced nodeId token es n := by
    refine LTS.Run.history (I := fun pre n => pre <+: es → Traced nodeId token pre n) ?_
      (fun _ => traced_init) h
    intro pre s l t hpre hi hst hle
    obtain ⟨post, hpost⟩ := hle
    rw [List.append_assoc, List.singleton_append] at hpost
    exact traced_step hpre (hi ⟨l :: post, hpost⟩) (hs pre l post s hpost.symm hpre) hst
  have ht := ht List.prefix_rfl
  exact ⟨fun i q v hq hv => ht.results i q v hq (ht.returned i q v hq hv), ht.routes⟩

/-! ## One query -/

theorem solicitedRun_nil : SolicitedRun nodeId token [] := by
  intro es1 l es2 n he
  have hlen := congrArg List.length he
  simp at hlen

theorem SolicitedRun.snoc {es : List Lbl} {l : Lbl} (h : SolicitedRun nodeId token es)
    (hl : ∀ n, (RoutingTables.lts nodeId token).Run (Node.init nodeId token) es n →
      Solicited nodeId token es n l) : SolicitedRun nodeId token (es ++ [l]) := by
  intro es1 k es2 n he hr
  rcases List.append_eq_append_iff.mp he with ⟨mid, rfl, hm⟩ | ⟨mid, rfl, hm⟩
  · cases mid with
    | nil =>
      obtain ⟨rfl, -⟩ := List.cons.inj hm
      rw [List.append_nil] at hr ⊢
      exact hl n hr
    | cons x mid =>
      have hlen := congrArg List.length hm
      simp at hlen
  · cases mid with
    | nil =>
      obtain ⟨rfl, -⟩ := List.cons.inj hm
      rw [List.append_nil] at hl
      exact hl n hr
    | cons x mid =>
      obtain ⟨rfl, -⟩ := List.cons.inj hm
      exact h es1 k mid n rfl hr

/-- A query to `nodeAddr`, and what comes from `source` under its transaction id. -/
def queryRun (data : Bytes) (source : Addr) : List Lbl :=
  [.node (.query 0 nodeAddr (encode "find_node") [] 20), .node (.sent 0 true),
    .node (.receive 20 20 20 data source), .node (.resume 0)]

def queried (data : Bytes) (source : Addr) : Node :=
  LTS.after RoutingTables.step (Node.init [1] [2]) (queryRun data source)

/-- The query is out. -/
def asked : Node := LTS.after RoutingTables.step (Node.init [1] [2]) ((queryRun [] nodeAddr).take 2)

/-- An answer of `nodeAddr` that names `nodeAddr` itself. -/
def ownAnswer : Bytes :=
  answer (List.replicate 20 97) (List.replicate 20 98 ++ [192, 0, 2, 1, 26, 225])

def ownFields : List (Bencode.Key × Value) :=
  [(field "r", .dict [(field "id", .bytes (List.replicate 20 97)),
      (field "nodes", .bytes (List.replicate 20 98 ++ [192, 0, 2, 1, 26, 225]))]),
    (field "t", .bytes [0, 1]), (field "y", .bytes (encode "r"))]

theorem ownAnswer_read : bdecode 20 20 ownAnswer = .done (.dict ownFields) := by
  rfl

theorem asked_run : (RoutingTables.lts [1] [2]).Run (Node.init [1] [2])
    ((queryRun [] nodeAddr).take 2) asked :=
  LTS.run_of_exec (LTS.exec_after rfl)

theorem asked_query : asked.query 0 = some ⟨nodeAddr, [0, 1], .pending, .waiting⟩ := by
  rfl

theorem own_reply :
    Reply asked 0 ⟨nodeAddr, [0, 1], .pending, .waiting⟩ 20 20 ownAnswer ownFields :=
  ⟨asked_query, ownAnswer_read, rfl, rfl⟩

theorem own_solicited : Solicited [1] [2] ((queryRun ownAnswer nodeAddr).take 2) asked
    (.node (.receive 20 20 20 ownAnswer nodeAddr)) := by
  intro d hd _
  rw [ownAnswer_read] at hd
  cases hd
  refine ⟨fun tid i q ht hp hi _ => ?_, fun _ => ⟨0, _, asked_query, rfl, rfl⟩⟩
  have htid : tid = [0, 1] := by cases ht; rfl
  have hpend : asked.pending.get? [0, 1] = some 0 := rfl
  rw [htid, hpend] at hp
  cases hp
  rw [asked_query] at hi
  cases hi
  rfl

/-- `bootstrap` over one node, which names itself: the table has it under both of its ids. -/
theorem answered_bootstrap :
    (LTS.after RoutingTables.step (queried ownAnswer nodeAddr)
        [.bootstrapAnswer 0]).routingTable.entries =
        [(.bytes (List.replicate 20 97), nodeAddr), (.bytes (List.replicate 20 98), nodeAddr)] ∧
      FromAddressee [1] [2] (queryRun ownAnswer nodeAddr ++ [.bootstrapAnswer 0])
        (LTS.after RoutingTables.step (queried ownAnswer nodeAddr) [.bootstrapAnswer 0]) := by
  have hrun : (RoutingTables.lts [1] [2]).Run (Node.init [1] [2])
      (queryRun ownAnswer nodeAddr ++ [.bootstrapAnswer 0])
      (LTS.after RoutingTables.step (queried ownAnswer nodeAddr) [.bootstrapAnswer 0]) :=
    (LTS.run_of_exec (LTS.exec_after rfl)).append (LTS.run_of_exec (LTS.exec_after rfl))
  refine ⟨rfl, answered_by_addressee _ _ hrun ?_⟩
  have h1 : SolicitedRun [1] [2] ([] ++ [.node (.query 0 nodeAddr (encode "find_node") [] 20)]) :=
    .snoc solicitedRun_nil fun _ _ => trivial
  have h2 : SolicitedRun [1] [2] ((queryRun ownAnswer nodeAddr).take 2) :=
    h1.snoc (l := .node (.sent 0 true)) fun _ _ => trivial
  have h3 : SolicitedRun [1] [2] ((queryRun ownAnswer nodeAddr).take 3) := by
    refine h2.snoc fun n hr => ?_
    rw [hr.unique asked_run]
    exact own_solicited
  refine (h3.snoc (l := .node (.resume 0)) fun _ _ => trivial).snoc fun n hr e he => ?_
  have hend : (RoutingTables.lts [1] [2]).Run (Node.init [1] [2]) (queryRun ownAnswer nodeAddr)
      (queried ownAnswer nodeAddr) := LTS.run_of_exec (LTS.exec_after rfl)
  rw [hr.unique hend] at he
  have hnamed : named (queried ownAnswer nodeAddr) (.bootstrapAnswer 0) =
      [(.bytes (List.replicate 20 98), nodeAddr)] := rfl
  rw [hnamed, List.mem_singleton] at he
  rw [he]
  exact ⟨_, 20, 20, 20, ownAnswer, ownFields, [.node (.resume 0)], asked, 0, _, rfl, asked_run,
    own_reply, rfl⟩

/-- A response under the first transaction id, of a node that calls itself `x`. -/
def firstResponse : Bytes :=
  encode "d1:rd2:id1:xe1:t2:" ++ [0, 1] ++ encode "1:y1:re"

/-- Another node answers in the place of the one that was asked. -/
theorem forged_answer :
    ¬ ∀ (nodeId token : Bytes) (es : List Lbl) (n : Node),
      (RoutingTables.lts nodeId token).Run (Node.init nodeId token) es n →
        FromAddressee nodeId token es n := by
  intro h
  have hrun : (RoutingTables.lts [1] [2]).Run (Node.init [1] [2]) (queryRun firstResponse otherAddr)
      (queried firstResponse otherAddr) := LTS.run_of_exec (LTS.exec_after rfl)
  have hq : (queried firstResponse otherAddr).query 0 = some ⟨nodeAddr, [0, 1],
      .result (.dict [(.bytes [105, 100], .bytes [120])]),
      .returned (some (.dict [(.bytes [105, 100], .bytes [120])]))⟩ := rfl
  obtain ⟨es1, fuel, depth, levels, data, d, es2, n, q1, he, -⟩ :=
    (h [1] [2] _ _ hrun).answers 0 _ _ hq rfl
  have hmem : RoutingTables.Lbl.node (.receive fuel depth levels data nodeAddr) ∈
      queryRun firstResponse otherAddr := by
    rw [he]
    exact List.mem_append_right es1 List.mem_cons_self
  simp [queryRun, nodeAddr, otherAddr] at hmem

end Wormhole.L5.DhtAnswers
