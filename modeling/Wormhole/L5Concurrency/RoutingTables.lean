import Wormhole.L4App.CompactNodes
import Wormhole.L5Concurrency.DhtQueries

/-!
# What enters a routing table

The runs of a DHT node with the two callers that put the answers to their
queries in the routing table: `bootstrap` takes the nodes and the id of an
answer, `_find_nodes` the nodes. A response enters its id whether it was asked
for or not. Nobody looks at an id, which comes from the other side, and no
entry is ever removed.

`faithful_run_iff`: after a run the compact list is faithful for every target
exactly when each of the steps entered ids of 20 bytes only;
`short_id_lost`: the routing table after one datagram.
-/
namespace Wormhole.L5.RoutingTables
open Wormhole.L1 Wormhole.L1.Bencode Wormhole.L4.Dht

abbrev Entry := Bencode.Key × Addr

inductive Lbl
  | node (l : DhtQueries.Lbl)
  | bootstrapAnswer (i : QueryId)
  | findNodesAnswer (i : QueryId)

/-! ## Answers -/

/-- The nodes of an answer; `none` where they cannot be read. -/
def answerNodes (response : List (Bencode.Key × Value)) : Option (List (Bytes × Addr)) :=
  match get response "nodes" with
  | some nodes => parseNodes nodes
  | none => some []

/-- The entries of an answer to `bootstrap`, in order. An answer that is no dict
is falsy, has neither name in it or raises where it is indexed.
mirrors src/wh/wns/dht.py:742-756 -/
def bootstrapEntries (response : Value) (addr : Addr) : List Entry :=
  match response with
  | .dict d =>
    match answerNodes d with
    | none => []
    | some nodes =>
      nodes.map entry ++ (((get d "id").bind Value.key).map fun id => (id, addr)).toList
  | _ => []

/-- mirrors src/wh/wns/dht.py:877-887 -/
def findNodesEntries (response : Value) : List Entry :=
  match response with
  | .dict d => ((answerNodes d).getD []).map entry
  | _ => []

/-! ## Steps -/

def enter (table : Dict Bencode.Key Addr) (es : List Entry) : Dict Bencode.Key Addr :=
  es.foldl (fun table e => table.set e.1 e.2) table

/-- The ports of a socket have 16 bits. -/
def fromSocket : DhtQueries.Lbl → Bool
  | .receive _ _ _ _ addr => addr.port < 65536
  | _ => true

/-- What a step enters in the routing table. -/
def introduced (n : Node) : Lbl → List Entry
  | .node l => (DhtQueries.heard l).toList
  | .bootstrapAnswer i =>
    match n.query i with
    | some ⟨addr, _, _, .returned (some response)⟩ => bootstrapEntries response addr
    | _ => []
  | .findNodesAnswer i =>
    match n.query i with
    | some ⟨_, _, _, .returned (some response)⟩ => findNodesEntries response
    | _ => []

/-- The callers go on after `_query` with what it returned. -/
def step (n : Node) : Lbl → Option Node
  | .node l => if fromSocket l then DhtQueries.step n l else none
  | .bootstrapAnswer i =>
    match n.query i with
    | some ⟨addr, _, _, .returned (some response)⟩ =>
      -- to another port `sock_sendto` raises, and there is no answer
      if addr.port < 65536 then
        some { n with routingTable := enter n.routingTable (bootstrapEntries response addr) }
      else none
    | _ => none
  | .findNodesAnswer i =>
    match n.query i with
    | some ⟨_, _, _, .returned (some response)⟩ =>
      some { n with routingTable := enter n.routingTable (findNodesEntries response) }
    | _ => none

def lts (nodeId token : Bytes) : LTS Node Lbl := .ofStep (· = Node.init nodeId token) step

/-- The nodes named in the answer that a caller goes on with. -/
def named (n : Node) : Lbl → List Entry
  | .node _ => []
  | .bootstrapAnswer i | .findNodesAnswer i =>
    match n.query i with
    | some ⟨_, _, _, .returned (some response)⟩ => findNodesEntries response
    | _ => []

/-- The step enters ids of 20 bytes only. -/
def Regular (n : Node) (l : Lbl) : Prop := ∀ e ∈ introduced n l, IsNodeId e.1

instance (n : Node) (l : Lbl) : Decidable (Regular n l) :=
  inferInstanceAs (Decidable (∀ e ∈ introduced n l, IsNodeId e.1))

/-! ## What a step enters -/

theorem mem_enter {table : Dict Bencode.Key Addr} {es : List Entry} {e : Entry}
    (h : e ∈ (enter table es).entries) : e ∈ table.entries ∨ e ∈ es := by
  unfold enter at h
  induction es generalizing table with
  | nil => exact .inl h
  | cons f es ih =>
    rcases ih h with h | h
    · obtain ⟨k, v⟩ := e
      rw [Dict.mem_entries, Dict.get?_set] at h
      split at h
      · rename_i hk
        cases h
        subst hk
        exact .inr List.mem_cons_self
      · exact .inl (Dict.mem_entries.mpr h)
    · exact .inr (List.mem_cons_of_mem f h)

theorem keys_enter {table : Dict Bencode.Key Addr} {es : List Entry} {k : Bencode.Key} :
    k ∈ (enter table es).keys ↔ k ∈ table.keys ∨ k ∈ es.map Prod.fst := by
  unfold enter
  induction es generalizing table with
  | nil => simp
  | cons e es ih =>
    have hset : k ∈ (table.set e.1 e.2).keys ↔ k = e.1 ∨ k ∈ table.keys := by
      rw [Dict.mem_keys, Dict.mem_keys, Dict.get?_set]
      by_cases he : e.1 = k
      · simp [he]
      · rw [if_neg he]
        simp [Ne.symm he]
    rw [List.foldl_cons, ih, hset, List.map_cons, List.mem_cons]
    tauto

theorem step_table {n n' : Node} {l : Lbl} (hst : step n l = some n') :
    n'.routingTable = enter n.routingTable (introduced n l) := by
  cases l with
  | node l =>
    rw [step] at hst
    split at hst
    · rw [DhtQueries.table_step hst, introduced]
      cases DhtQueries.heard l <;> rfl
    · cases hst
  | bootstrapAnswer i =>
    rw [step] at hst
    rw [introduced]
    split at hst
    · split at hst
      · cases hst; rfl
      · cases hst
    · cases hst
  | findNodesAnswer i =>
    rw [step] at hst
    rw [introduced]
    split at hst
    · cases hst; rfl
    · cases hst

/-- The callers of `_query` change the routing table alone. -/
theorem step_cases {n n' : Node} {l : Lbl} (hst : step n l = some n') :
    (∃ l', l = .node l' ∧ DhtQueries.step n l' = some n') ∨
      ∃ table, n' = { n with routingTable := table } := by
  cases l with
  | node l =>
    rw [step] at hst
    split at hst
    · exact .inl ⟨l, rfl, hst⟩
    · cases hst
  | bootstrapAnswer i =>
    rw [step] at hst
    split at hst
    · split at hst
      · cases hst; exact .inr ⟨_, rfl⟩
      · cases hst
    · cases hst
  | findNodesAnswer i =>
    rw [step] at hst
    split at hst
    · cases hst; exact .inr ⟨_, rfl⟩
    · cases hst

/-- Besides the nodes that an answer names, `bootstrap` enters the node that gave it. -/
theorem mem_bootstrapEntries {response : Value} {addr : Addr} {e : Entry}
    (h : e ∈ bootstrapEntries response addr) : e ∈ findNodesEntries response ∨
      ∃ d, response = .dict d ∧ (get d "id").bind Value.key = some e.1 ∧ e.2 = addr := by
  unfold bootstrapEntries at h
  unfold findNodesEntries
  split at h
  · rename_i d
    cases hn : answerNodes d with
    | none =>
      rw [hn] at h
      cases h
    | some nodes =>
      rw [hn] at h
      rcases List.mem_append.mp h with h | h
      · exact .inl h
      · simp only [Option.mem_toList, Option.map_eq_some_iff] at h
        obtain ⟨id, hid, rfl⟩ := h
        exact .inr ⟨d, rfl, hid, rfl⟩
  · cases h

/-- Where an entry that a step brings comes from: a datagram, an answer to `bootstrap` that has the
id in it, or an answer that names the node. -/
inductive Source (n : Node) (l : Lbl) (e : Entry) : Prop
  | heard (l') (hl : l = .node l') (h : DhtQueries.heard l' = some e)
  | answer (i tid future d) (h : n.query i = some ⟨e.2, tid, future, .returned (some (.dict d))⟩)
      (hid : (get d "id").bind Value.key = some e.1)
  | named (h : e ∈ named n l)

theorem source_of_introduced {n : Node} {l : Lbl} {e : Entry} (h : e ∈ introduced n l) :
    Source n l e := by
  cases l with
  | node l =>
    rw [introduced, Option.mem_toList] at h
    exact .heard l rfl h
  | bootstrapAnswer i =>
    rw [introduced] at h
    split at h
    · rename_i addr tid future response hq
      obtain h | ⟨d, rfl, hid, he⟩ := mem_bootstrapEntries h
      · refine .named ?_
        rw [RoutingTables.named, hq]
        exact h
      · exact .answer i tid future d (by rw [he]; exact hq) hid
    · cases h
  | findNodesAnswer i =>
    rw [introduced] at h
    split at h
    · rename_i addr tid future response hq
      refine .named ?_
      rw [RoutingTables.named, hq]
      exact h
    · cases h

/-- An entry of the routing table was there before the step, or the step brings it. -/
theorem entry_step {n n' : Node} {l : Lbl} (hst : step n l = some n') {id : Bencode.Key}
    {addr : Addr} (h : n'.routingTable.get? id = some addr) :
    n.routingTable.get? id = some addr ∨ Source n l (id, addr) := by
  rw [← Dict.mem_entries, step_table hst] at h
  obtain h | h := mem_enter h
  · exact .inl (Dict.mem_entries.mp h)
  · exact .inr (source_of_introduced h)

/-- The ids of nodes that an answer names are byte strings. -/
theorem bytes_of_named {n : Node} {l : Lbl} {e : Entry} (h : e ∈ named n l) :
    ∃ bs, e.1 = .bytes bs := by
  have hfind : ∀ response, e ∈ findNodesEntries response → ∃ bs, e.1 = .bytes bs := by
    intro response h
    unfold findNodesEntries at h
    split at h
    · obtain ⟨r, -, rfl⟩ := List.mem_map.mp h
      exact ⟨r.1, rfl⟩
    · cases h
  cases l with
  | node l => cases h
  | bootstrapAnswer i | findNodesAnswer i =>
    rw [named] at h
    split at h
    · exact hfind _ h
    · cases h

theorem answerNodes_ports {d : List (Bencode.Key × Value)} {nodes : List (Bytes × Addr)}
    (h : answerNodes d = some nodes) : ∀ e ∈ nodes.map entry, e.2.port < 65536 := by
  intro e he
  obtain ⟨r, hr, rfl⟩ := List.mem_map.mp he
  unfold answerNodes at h
  split at h
  · exact (parseNodes_fits h r hr).port
  · cases h; cases hr

theorem bootstrapEntries_ports {response : Value} {addr : Addr} (ha : addr.port < 65536) :
    ∀ e ∈ bootstrapEntries response addr, e.2.port < 65536 := by
  intro e he
  unfold bootstrapEntries at he
  split at he
  · split at he
    · cases he
    · rename_i nodes hn
      rcases List.mem_append.mp he with he | he
      · exact answerNodes_ports hn e he
      · simp only [Option.mem_toList, Option.map_eq_some_iff] at he
        obtain ⟨id, -, rfl⟩ := he
        exact ha
  · cases he

theorem findNodesEntries_ports (response : Value) :
    ∀ e ∈ findNodesEntries response, e.2.port < 65536 := by
  intro e he
  unfold findNodesEntries at he
  split at he
  · rename_i d
    cases hn : answerNodes d with
    | none => rw [hn] at he; cases he
    | some nodes => rw [hn] at he; exact answerNodes_ports hn e he
  · cases he

theorem introduced_ports {n n' : Node} {l : Lbl} (hst : step n l = some n') :
    ∀ e ∈ introduced n l, e.2.port < 65536 := by
  cases l with
  | node l =>
    rw [step] at hst
    split at hst
    · rename_i hsock
      intro e he
      rw [introduced, Option.mem_toList] at he
      unfold DhtQueries.heard at he
      split at he
      · split at he
        · split at he
          · obtain ⟨id, -, rfl⟩ := Option.map_eq_some_iff.mp he
            exact of_decide_eq_true hsock
          · cases he
        · cases he
      · cases he
    · cases hst
  | bootstrapAnswer i =>
    rw [step] at hst
    rw [introduced]
    split at hst
    · split at hst
      · rename_i ha
        exact bootstrapEntries_ports ha
      · cases hst
    · cases hst
  | findNodesAnswer i =>
    rw [step] at hst
    rw [introduced]
    split at hst
    · exact findNodesEntries_ports _
    · cases hst

/-! ## Runs -/

theorem ports_run {nodeId token : Bytes} {n n' : Node} {ls : List Lbl}
    (hr : (lts nodeId token).Run n ls n') (h : ∀ e ∈ n.routingTable.entries, e.2.port < 65536) :
    ∀ e ∈ n'.routingTable.entries, e.2.port < 65536 := by
  refine LTS.Run.invariant (I := fun n => ∀ e ∈ n.routingTable.entries, e.2.port < 65536)
    (fun s l t hs (hst : step s l = some t) e he => ?_) hr h
  rw [step_table hst] at he
  rcases mem_enter he with he | he
  · exact hs e he
  · exact introduced_ports hst e he

/-- No id is forgotten, so the table shows what the steps entered. -/
theorem ids_run_iff {nodeId token : Bytes} {n n' : Node} {ls : List Lbl}
    (hr : (lts nodeId token).Run n ls n') :
    (∀ k ∈ n'.routingTable.keys, IsNodeId k) ↔
      (∀ k ∈ n.routingTable.keys, IsNodeId k) ∧
        ((lts nodeId token).restrict Regular).Run n ls n' := by
  refine LTS.Run.restrict_iff (I := fun _ => True)
    (P := fun n => ∀ k ∈ n.routingTable.keys, IsNodeId k) (fun _ _ _ _ _ => trivial)
    (fun n l t _ (hst : step n l = some t) => ?_) hr trivial
  rw [step_table hst]
  constructor
  · intro h
    exact ⟨fun k hk => h k (keys_enter.mpr (.inl hk)),
      fun e he => h e.1 (keys_enter.mpr (.inr (List.mem_map_of_mem he)))⟩
  · rintro ⟨h, hreg⟩ k hk
    rcases keys_enter.mp hk with hk | hk
    · exact h k hk
    · obtain ⟨e, he, rfl⟩ := List.mem_map.mp hk
      exact hreg e he

/-- **Headline.** After a run the compact list of every target is read back as the
nearest entries, exactly when every step entered ids of 20 bytes only. -/
theorem faithful_run_iff (nodeId token : Bytes) (ls : List Lbl) (n : Node)
    (hr : (lts nodeId token).Run (Node.init nodeId token) ls n) :
    (∀ target : Bytes, target.length = 20 → Faithful n.routingTable target) ↔
      ((lts nodeId token).restrict Regular).Run (Node.init nodeId token) ls n := by
  have hempty : ∀ k ∈ (Node.init nodeId token).routingTable.keys, IsNodeId k :=
    fun k hk => by cases hk
  have hport := ports_run hr fun e he => by cases he
  have hids : (∀ e ∈ n.routingTable.entries, IsNodeId e.1) ↔
      ∀ k ∈ n.routingTable.keys, IsNodeId k :=
    ⟨fun h k hk => by obtain ⟨e, he, rfl⟩ := List.mem_map.mp hk; exact h e he,
      fun h e he => h e.1 (List.mem_map_of_mem he)⟩
  rw [faithful_iff hport, hids, ids_run_iff hr]
  exact ⟨fun h => h.2, fun h => ⟨hempty, h⟩⟩

/-! ## Two nodes -/

def nodeAddr : Addr := ⟨⟨192, 0, 2, 1⟩, 6881⟩

def otherAddr : Addr := ⟨⟨203, 0, 113, 9⟩, 4444⟩

/-- A response under the first transaction id. -/
def answer (id nodes : Bytes) : Bytes :=
  encode "d1:rd2:id" ++ lengthPrefixed id ++ encode "5:nodes" ++ lengthPrefixed nodes ++
    encode "e1:t2:" ++ [0, 1] ++ encode "1:y1:re"

/-- `bootstrap` over one node, which knows of another one. -/
def bootRun : List Lbl :=
  [.node (.query 0 nodeAddr (encode "find_node") [] 20), .node (.sent 0 true),
    .node (.receive 20 20 20 (answer (List.replicate 20 97) (List.replicate 26 98)) nodeAddr),
    .node (.resume 0), .bootstrapAnswer 0]

def booted : Node := LTS.after step (Node.init [1] [2]) bootRun

theorem booted_faithful : booted.routingTable.keys =
      [.bytes (List.replicate 20 97), .bytes (List.replicate 20 98)] ∧
    ∀ target : Bytes, target.length = 20 → Faithful booted.routingTable target := by
  have hrun : ((lts [1] [2]).restrict Regular).Run (Node.init [1] [2]) bootRun booted :=
    LTS.restrict_run_of_decide rfl
  exact ⟨rfl, (faithful_run_iff _ _ _ _ hrun.of_restrict).mpr hrun⟩

/-- A response nobody asked for, with an id of 19 bytes. -/
def shortRun : List Lbl :=
  [.node (.receive 20 20 20 (answer (List.replicate 19 97) []) nodeAddr)]

def shortened : Node := LTS.after step (Node.init [1] [2]) shortRun

/-- The one entry is not in the list. -/
theorem short_id_lost : ¬ ∀ n : Node, (lts [1] [2]).Reachable n →
    ∀ target : Bytes, target.length = 20 → Faithful n.routingTable target := by
  intro h
  have hrun : LTS.exec step (Node.init [1] [2]) shortRun = some shortened := rfl
  have hin : (.bytes (List.replicate 19 97), nodeAddr) ∈ shortened.routingTable.entries :=
    List.mem_singleton.mpr rfl
  exact not_faithful hin (by decide)
    (h shortened (LTS.reachable_of_exec rfl hrun) (shadow (List.replicate 19 97)) rfl)

end Wormhole.L5.RoutingTables
