import Mathlib.Data.Fintype.Prod
import Mathlib.Data.Set.Finite.Range
import Wormhole.Core.Frontier
import Wormhole.L5Concurrency.RoutingTables

/-!
# Looking for the peers of an info hash

`get_peers` of `src/wh/wns/dht.py` goes from the first eight entries of the routing table outwards:
an answer names peers, which are kept, and nodes, which are asked in their turn. `answer` is what
`_query` returns for an address. As no address is asked twice, it is a function of the address; what
the others answer is up to them.

* `getPeers_complete`: whatever the answers are, the search comes to an end, with the peers that the
  nodes it can get to name (`Finds`).
* `getPeers_order`: it asks no address twice, and none before those that are fewer answers away
  (`Asks`).
-/
namespace Wormhole.L5.DhtLookup
open Wormhole.L1 Wormhole.L1.Bencode Wormhole.L4.Dht Wormhole.L5.RoutingTables

structure Lookup where
  peers : List Addr
  queried : List Addr
  toQuery : List Addr

/-! ## Answers -/

/-- `_decode_peer` of what an iteration gives; the outer `none` is an exception. A list or a dict
has a length too, and raises at the slice where it has six elements.
mirrors src/wh/wns/dht.py:938-944 -/
def decodeElement : Value → Option (Option Addr)
  | .bytes data => some (decodePeer data)
  | .int _ => none
  | .list xs => if xs.length = 6 then none else some none
  | .dict es => if es.length = 6 then none else some none

/-- The peers named by values, up to the one that raises, and whether none does. -/
def decodeElements : List Value → List Addr × Bool
  | [] => ([], true)
  | v :: vs =>
    match decodeElement v with
    | none => ([], false)
    | some none => decodeElements vs
    | some (some peer) => ((peer :: (decodeElements vs).1), (decodeElements vs).2)

/-- mirrors src/wh/wns/dht.py:830-834 -/
def answerValues (response : List (Bencode.Key × Value)) : List Addr × Bool :=
  match get response "values" with
  | none => ([], true)
  | some values =>
    match elements values with
    | none => ([], false)
    | some vs => decodeElements vs

/-- The peers that an answer names. One that is no dict is falsy or raises where it is looked
into. -/
def named : Option Value → List Addr
  | some (.dict response) => (answerValues response).1
  | _ => []

/-- The nodes that an answer leads to; after an exception there are none. -/
def leads : Option Value → List Addr
  | some (.dict response) =>
    if (answerValues response).2 then ((answerNodes response).getD []).map Prod.snd else []
  | _ => []

/-! ## The search -/

/-- `set.add`. -/
def addAddr (peers : List Addr) (peer : Addr) : List Addr :=
  if peer ∈ peers then peers else peers ++ [peer]

/-- mirrors src/wh/wns/dht.py:824-843 -/
def hear (s : Lookup) (response : Option Value) : Lookup :=
  { s with
    peers := (named response).foldl addAddr s.peers
    toQuery := s.toQuery ++ (leads response).filter (· ∉ s.queried) }

/-- One turn of the loop.
mirrors src/wh/wns/dht.py:818-843 -/
def round (answer : Addr → Option Value) (s : Lookup) : Lookup :=
  match s.toQuery with
  | [] => s
  | addr :: rest =>
    if addr ∈ s.queried then { s with toQuery := rest }
    else hear { s with queried := s.queried ++ [addr], toQuery := rest } (answer addr)

/-- `none` while it goes on. -/
def loop (answer : Addr → Option Value) (maxPeers : Int) : Nat → Lookup → Option Lookup
  | 0, _ => none
  | fuel + 1, s =>
    if s.toQuery ≠ [] ∧ (s.peers.length : Int) < maxPeers then
      loop answer maxPeers fuel (round answer s)
    else some s

/-- The first entries of the routing table. -/
def closest (table : Dict Bencode.Key Addr) : List Addr := table.values.take 8

def begin (table : Dict Bencode.Key Addr) : Lookup := ⟨[], [], closest table⟩

/-- The peers are a set, so their order says nothing. `queried` tells which addresses were asked.
mirrors src/wh/wns/dht.py:803-845 -/
def getPeers (fuel : Nat) (table : Dict Bencode.Key Addr) (answer : Addr → Option Value)
    (infoHash : Bytes) (maxPeers : Int) : Except String (Option Lookup) :=
  if infoHash.length ≠ 20 then .error "info_hash must be 20 bytes"
  else .ok (loop answer maxPeers fuel (begin table))

/-! ## As a search -/

variable {answer : Addr → Option Value} {maxPeers : Int}

/-- The addresses that an address leads to. -/
def next (answer : Addr → Option Value) (addr : Addr) : List Addr := leads (answer addr)

def frontier (s : Lookup) : Frontier Addr := ⟨s.queried, s.toQuery⟩

def rounds (answer : Addr → Option Value) : Nat → Lookup → Lookup
  | 0, s => s
  | n + 1, s => round answer (rounds answer n s)

theorem rounds_succ (answer : Addr → Option Value) (n : Nat) (s : Lookup) :
    rounds answer (n + 1) s = rounds answer n (round answer s) := by
  induction n with
  | zero => rfl
  | succ n ih => rw [rounds, ih, rounds]

theorem frontier_round (answer : Addr → Option Value) (s : Lookup) :
    frontier (round answer s) = Frontier.turn (next answer) (frontier s) := by
  obtain ⟨peers, queried, toQuery⟩ := s
  cases toQuery with
  | nil => rfl
  | cons addr rest =>
    by_cases h : addr ∈ queried
    · simp only [round, frontier, if_pos h]
      exact (if_pos h).symm
    · simp only [round, frontier, if_neg h, hear]
      exact (if_neg h).symm

theorem frontier_rounds (answer : Addr → Option Value) (n : Nat) (s : Lookup) :
    frontier (rounds answer n s) = Frontier.turns (next answer) n (frontier s) := by
  induction n with
  | zero => rfl
  | succ n ih => rw [rounds, frontier_round, ih, Frontier.turns]

theorem frontier_begin (table : Dict Bencode.Key Addr) :
    frontier (begin table) = Frontier.start (closest table) := rfl

/-! ## The peers -/

theorem mem_added {α : Type*} {xs : List α} {x y : α} [Decidable (y ∈ xs)] :
    x ∈ (if y ∈ xs then xs else xs ++ [y]) ↔ x ∈ xs ∨ x = y := by
  split
  · rename_i hy
    constructor
    · exact .inl
    · intro h
      obtain h | rfl := h
      · exact h
      · exact hy
  · simp

theorem mem_addAddr {peers : List Addr} {p q : Addr} : q ∈ addAddr peers p ↔ q ∈ peers ∨ q = p :=
  mem_added

theorem mem_foldl_addAddr {found peers : List Addr} {q : Addr} :
    q ∈ found.foldl addAddr peers ↔ q ∈ peers ∨ q ∈ found := by
  induction found generalizing peers with
  | nil => simp
  | cons p found ih =>
    rw [List.foldl_cons, ih, mem_addAddr, List.mem_cons, or_assoc]

theorem nodup_addAddr {peers : List Addr} (h : peers.Nodup) (p : Addr) :
    (addAddr peers p).Nodup := by
  unfold addAddr
  split
  · exact h
  · rename_i hp
    rw [List.nodup_append]
    refine ⟨h, List.nodup_singleton p, fun q hq r hr hqr => ?_⟩
    rw [List.mem_singleton] at hr
    exact hp (by rw [← hr, ← hqr]; exact hq)

theorem nodup_foldl_addAddr {found peers : List Addr} (h : peers.Nodup) :
    (found.foldl addAddr peers).Nodup := by
  induction found generalizing peers with
  | nil => exact h
  | cons p found ih => exact ih (nodup_addAddr h p)

/-- The peers are those that the queried addresses named, each once. -/
structure Gathered (answer : Addr → Option Value) (s : Lookup) : Prop where
  nodup : s.peers.Nodup
  named : ∀ p, p ∈ s.peers ↔ ∃ addr ∈ s.queried, p ∈ named (answer addr)

theorem gathered_round {s : Lookup} (h : Gathered answer s) : Gathered answer (round answer s) := by
  obtain ⟨peers, queried, toQuery⟩ := s
  cases toQuery with
  | nil => exact h
  | cons addr rest =>
    rw [round]
    dsimp only
    split
    · exact ⟨h.nodup, h.named⟩
    · refine ⟨nodup_foldl_addAddr h.nodup, fun p => ?_⟩
      rw [hear, mem_foldl_addAddr, h.named p]
      simp only [List.mem_append, List.mem_singleton, or_and_right, exists_or, exists_eq_left]

theorem gathered_rounds (answer : Addr → Option Value) (table : Dict Bencode.Key Addr) (n : Nat) :
    Gathered answer (rounds answer n (begin table)) := by
  induction n with
  | zero => exact ⟨List.nodup_nil, fun p => by simp [rounds, begin]⟩
  | succ n ih => exact gathered_round ih

/-! ## How it ends -/

/-- What is returned is the state after some rounds, with nothing left to ask or enough found. -/
theorem loop_some {fuel : Nat} {s t : Lookup} (h : loop answer maxPeers fuel s = some t) :
    (∃ n, t = rounds answer n s) ∧ (t.toQuery = [] ∨ maxPeers ≤ t.peers.length) := by
  induction fuel generalizing s with
  | zero => cases h
  | succ fuel ih =>
    rw [loop] at h
    split at h
    · obtain ⟨⟨n, hn⟩, hend⟩ := ih h
      exact ⟨⟨n + 1, by rw [rounds_succ, hn]⟩, hend⟩
    · rename_i hgo
      cases h
      refine ⟨⟨0, rfl⟩, ?_⟩
      by_cases ht : t.toQuery = []
      · exact .inl ht
      · exact .inr (Int.not_lt.mp fun hlt => hgo ⟨ht, hlt⟩)

theorem loop_mono {fuel more : Nat} {s t : Lookup} (h : loop answer maxPeers fuel s = some t)
    (hle : fuel ≤ more) : loop answer maxPeers more s = some t := by
  induction fuel generalizing s more with
  | zero => cases h
  | succ fuel ih =>
    obtain ⟨more, rfl⟩ : ∃ m, more = m + 1 := ⟨more - 1, by omega⟩
    rw [loop] at h ⊢
    split at h
    · rename_i hgo
      rw [if_pos hgo]
      exact ih h (by omega)
    · rename_i hgo
      rw [if_neg hgo]
      exact h

/-- Where some round has nothing left to ask, that many turns are enough. -/
theorem loop_ends (maxPeers : Int) {n : Nat} {s : Lookup}
    (h : (rounds answer n s).toQuery = []) {fuel : Nat} (hf : n < fuel) :
    ∃ t, loop answer maxPeers fuel s = some t := by
  induction n generalizing s fuel with
  | zero =>
    obtain ⟨fuel, rfl⟩ : ∃ f, fuel = f + 1 := ⟨fuel - 1, by omega⟩
    have hs : s.toQuery = [] := h
    exact ⟨s, by rw [loop, if_neg fun hgo => hgo.1 hs]⟩
  | succ n ih =>
    obtain ⟨fuel, rfl⟩ : ∃ f, fuel = f + 1 := ⟨fuel - 1, by omega⟩
    rw [loop]
    split
    · rw [rounds_succ] at h
      exact ih h (by omega)
    · exact ⟨s, rfl⟩

/-! ## The addresses there are -/

/-- The addresses that the four bytes of a host and the two of a port can say. -/
theorem finite_addrs : {addr : Addr | addr.port < 65536}.Finite := by
  let f : (Fin 256 × Fin 256 × Fin 256 × Fin 256) × Fin 65536 → Addr := fun x =>
    ⟨⟨.ofNat x.1.1, .ofNat x.1.2.1, .ofNat x.1.2.2.1, .ofNat x.1.2.2.2⟩, x.2⟩
  refine (Set.finite_range f).subset fun addr haddr => ?_
  obtain ⟨⟨a, b, c, d⟩, port⟩ := addr
  refine ⟨⟨⟨⟨a.toNat, a.toNat_lt⟩, ⟨b.toNat, b.toNat_lt⟩, ⟨c.toNat, c.toNat_lt⟩,
    ⟨d.toNat, d.toNat_lt⟩⟩, ⟨port, haddr⟩⟩, ?_⟩
  simp [f]

theorem leads_ports {response : Option Value} {addr : Addr} (h : addr ∈ leads response) :
    addr.port < 65536 := by
  unfold leads at h
  split at h
  · rename_i d
    split at h
    · cases hn : answerNodes d with
      | none => rw [hn] at h; cases h
      | some nodes =>
        rw [hn, Option.getD_some] at h
        obtain ⟨r, hr, rfl⟩ := List.mem_map.mp h
        exact answerNodes_ports hn (entry r) (List.mem_map_of_mem hr)
    · cases h
  · cases h

theorem finite_reached (answer : Addr → Option Value) (seeds : List Addr) :
    {addr | Frontier.Reached (next answer) seeds addr}.Finite := by
  refine (seeds.finite_toSet.union finite_addrs).subset fun addr h => ?_
  obtain ⟨n, h⟩ := h
  cases h with
  | seed h => exact .inl h
  | hop _ hb => exact .inr (leads_ports hb)

/-! ## Whole searches -/

theorem getPeers_ok {infoHash : Bytes} (h : infoHash.length = 20) (fuel : Nat)
    (table : Dict Bencode.Key Addr) : getPeers fuel table answer infoHash maxPeers =
      .ok (loop answer maxPeers fuel (begin table)) :=
  if_neg (not_not_intro h)

/-- The nodes that a search from the routing table can get to. -/
def Known (table : Dict Bencode.Key Addr) (answer : Addr → Option Value) (addr : Addr) : Prop :=
  Frontier.Reached (next answer) (closest table) addr

theorem queried_sound (table : Dict Bencode.Key Addr) (answer : Addr → Option Value) (n : Nat) :
    Frontier.Sound (next answer) (closest table) (frontier (rounds answer n (begin table))) := by
  rw [frontier_rounds, frontier_begin]
  exact Frontier.sound _ _ n

/-- A search has a last round. -/
theorem getPeers_ends (table : Dict Bencode.Key Addr) (answer : Addr → Option Value)
    (maxPeers : Int) : ∃ bound t, ∀ fuel, bound ≤ fuel →
      loop answer maxPeers fuel (begin table) = some t := by
  obtain ⟨n, hn⟩ := Frontier.ends _ _ (finite_reached answer (closest table))
  rw [← frontier_begin, ← frontier_rounds] at hn
  obtain ⟨t, ht⟩ := loop_ends maxPeers hn (Nat.lt_succ_self n)
  exact ⟨n + 1, t, fun fuel hf => loop_mono ht hf⟩

/-- What a search returns: peers that nodes named which it can get to, each once, and all of them
where there are fewer than it was to find. -/
structure Finds (table : Dict Bencode.Key Addr) (answer : Addr → Option Value) (maxPeers : Int)
    (peers : List Addr) : Prop where
  nodup : peers.Nodup
  sound : ∀ p ∈ peers, ∃ addr, Known table answer addr ∧ p ∈ named (answer addr)
  complete : (peers.length : Int) < maxPeers →
    ∀ addr, Known table answer addr → ∀ p ∈ named (answer addr), p ∈ peers

/-- What was asked, in order: no address twice, only those that can be got to from the routing
table, and none before one that is fewer answers away. -/
structure Asks (table : Dict Bencode.Key Addr) (answer : Addr → Option Value)
    (queried : List Addr) : Prop where
  nodup : queried.Nodup
  known : ∀ addr ∈ queried, Known table answer addr
  nearer : ∀ before addr after, queried = before ++ addr :: after →
    ∀ hops, ¬ Frontier.Within (next answer) (closest table) hops addr →
      ∀ other, Frontier.Within (next answer) (closest table) hops other → other ∈ before

theorem finds_of_loop {table : Dict Bencode.Key Addr} {fuel : Nat} {t : Lookup}
    (h : loop answer maxPeers fuel (begin table) = some t) :
    Finds table answer maxPeers t.peers := by
  obtain ⟨⟨n, rfl⟩, hend⟩ := loop_some h
  have hs := queried_sound table answer n
  have hg := gathered_rounds answer table n
  refine ⟨hg.nodup, fun p hp => ?_, fun hlt addr ha p hp => ?_⟩
  · obtain ⟨addr, ha, hp⟩ := (hg.named p).mp hp
    exact ⟨addr, hs.reached addr (List.mem_append_left _ ha), hp⟩
  · have hdone : (rounds answer n (begin table)).toQuery = [] := hend.resolve_right (by omega)
    exact (hg.named p).mpr ⟨addr, hs.reached_mem hdone ha, hp⟩

/-- **Headline.** Whatever is answered, a search for the peers of an info hash comes to an end, with
what it is to find. -/
theorem getPeers_complete (table : Dict Bencode.Key Addr) (answer : Addr → Option Value)
    (infoHash : Bytes) (maxPeers : Int) (hlen : infoHash.length = 20) :
    ∃ bound t, (∀ fuel, bound ≤ fuel →
        getPeers fuel table answer infoHash maxPeers = .ok (some t)) ∧
      Finds table answer maxPeers t.peers := by
  obtain ⟨bound, t, ht⟩ := getPeers_ends table answer maxPeers
  refine ⟨bound, t, fun fuel hf => ?_, finds_of_loop (ht bound (Nat.le_refl bound))⟩
  rw [getPeers_ok hlen, ht fuel hf]

/-- **Headline.** A search that returned has asked in order of the distance, and no one twice. -/
theorem getPeers_order (fuel : Nat) (table : Dict Bencode.Key Addr)
    (answer : Addr → Option Value) (infoHash : Bytes) (maxPeers : Int) (t : Lookup)
    (h : getPeers fuel table answer infoHash maxPeers = .ok (some t)) :
    Asks table answer t.queried := by
  unfold getPeers at h
  split at h
  · cases h
  · obtain ⟨⟨n, rfl⟩, -⟩ := loop_some (Except.ok.inj h)
    have hs := queried_sound table answer n
    have ho := Frontier.nearer_first (next answer) (closest table) n
    rw [← frontier_begin, ← frontier_rounds] at ho
    exact ⟨hs.nodup, fun addr ha => hs.reached addr (List.mem_append_left _ ha), ho⟩

/-! ## Two nodes -/

def firstAddr : Addr := ⟨⟨192, 0, 2, 1⟩, 6881⟩

def secondAddr : Addr := ⟨⟨192, 0, 2, 2⟩, 6882⟩

def peerAddr : Addr := ⟨⟨203, 0, 113, 9⟩, 8470⟩

/-- The first node knows itself and the second one, and the second one the peer. -/
def twoNodes (addr : Addr) : Option Value :=
  if addr = firstAddr then some (.dict [(field "nodes", .bytes
    (compactNode (.bytes (List.replicate 20 1), firstAddr) ++
      compactNode (.bytes (List.replicate 20 2), secondAddr)))])
  else if addr = secondAddr then some (.dict [(field "values", .list [.bytes
    [203, 0, 113, 9, 33, 22]])])
  else none

def oneEntry : Dict Bencode.Key Addr := .set .empty (.bytes (List.replicate 20 1)) firstAddr

theorem getPeers_twoNodes : getPeers 9 oneEntry twoNodes (List.replicate 20 0) 50 =
    .ok (some ⟨[peerAddr], [firstAddr, secondAddr], []⟩) := by
  rfl

theorem complete_twoNodes : ∃ bound t, (∀ fuel, bound ≤ fuel →
      getPeers fuel oneEntry twoNodes (List.replicate 20 0) 50 = .ok (some t)) ∧
    Finds oneEntry twoNodes 50 t.peers :=
  getPeers_complete oneEntry twoNodes (List.replicate 20 0) 50 (List.length_replicate ..)

theorem order_twoNodes : Asks oneEntry twoNodes [firstAddr, secondAddr] :=
  getPeers_order 9 oneEntry twoNodes (List.replicate 20 0) 50 _ getPeers_twoNodes

end Wormhole.L5.DhtLookup
