import Wormhole.Core.Nearest
import Wormhole.L4App.DhtNode

/-!
# Compact node lists

`_get_closest_nodes` and `_parse_nodes` of `src/wh/wns/dht.py`, the one after
the other. A record is 26 bytes: an id, the four bytes of an address and a
port. The reader goes by that width, the writer appends whatever id the routing
table has.

* `xorDistance_eq`: between ids of 20 bytes the distance is the exclusive or of
  the two numbers.
* `faithful_iff`: what is read are the nearest entries, for every target,
  exactly when every id in the table has 20 bytes.
-/
namespace Wormhole.L4.Dht
open Wormhole.L1 Wormhole.L1.Bencode

/-! ## Reading -/

/-- The record at `i`; `none` where `inet_ntoa` raises. -/
def nodeAt (data : Bytes) (i : Nat) : Option (Bytes × Addr) :=
  (Ip.ntoa ((data.drop (i + 20)).take 4)).map fun ip =>
    ((data.drop i).take 20, ⟨ip, unpack ((data.drop (i + 24)).take 2)⟩)

/-- mirrors src/wh/wns/dht.py:921-931. A list or a dict has a length too, and
raises at the first slice. -/
def parseNodes : Value → Option (List (Bytes × Addr))
  | .int _ => none
  | .bytes data =>
    ((List.range' 0 ((data.length + 25) / 26) 26).takeWhile fun i =>
      i + 26 ≤ data.length).mapM (nodeAt data)
  | .list xs => if xs.length < 26 then some [] else none
  | .dict es => if es.length < 26 then some [] else none

/-! ## Numbers -/

theorem xor_mul_add (m n : Nat) {a b : Nat} (ha : a < 256) (hb : b < 256) :
    (m * 256 + a) ^^^ (n * 256 + b) = (m ^^^ n) * 256 + (a ^^^ b) := by
  have hab : a ^^^ b < 2 ^ 8 := Nat.xor_lt_two_pow ha hb
  have e : ∀ k : Nat, k * 256 = 2 ^ 8 * k := fun k => Nat.mul_comm k 256
  refine Nat.eq_of_testBit_eq fun i => ?_
  rw [Nat.testBit_xor, e, e, e, Nat.testBit_two_pow_mul_add _ ha, Nat.testBit_two_pow_mul_add _ hb,
    Nat.testBit_two_pow_mul_add _ hab]
  split <;> rw [Nat.testBit_xor]

theorem foldl_xor : ∀ (as bs : Bytes) (m n : Nat), as.length = bs.length →
    (List.zipWith (· ^^^ ·) as bs).foldl (fun n b => n * 256 + b.toNat) (m ^^^ n) =
      as.foldl (fun n b => n * 256 + b.toNat) m ^^^ bs.foldl (fun n b => n * 256 + b.toNat) n
  | [], [], _, _, _ => rfl
  | a :: as, b :: bs, m, n, h => by
    rw [List.zipWith_cons_cons, List.foldl_cons, List.foldl_cons, List.foldl_cons, UInt8.toNat_xor,
      ← xor_mul_add m n a.toNat_lt b.toNat_lt]
    exact foldl_xor as bs _ _ (Nat.succ.inj h)

theorem unpack_xor {as bs : Bytes} (h : as.length = bs.length) :
    unpack (List.zipWith (· ^^^ ·) as bs) = unpack as ^^^ unpack bs :=
  foldl_xor as bs 0 0 h

theorem foldl_inj : ∀ {as bs : Bytes} {m n : Nat}, as.length = bs.length →
    as.foldl (fun n b => n * 256 + b.toNat) m = bs.foldl (fun n b => n * 256 + b.toNat) n →
    m = n ∧ as = bs
  | [], [], _, _, _, h => ⟨h, rfl⟩
  | a :: as, b :: bs, m, n, hlen, h => by
    have ha := a.toNat_lt
    have hb := b.toNat_lt
    obtain ⟨(hhead : m * 256 + a.toNat = n * 256 + b.toNat), htail⟩ :=
      foldl_inj (Nat.succ.inj hlen) h
    have hab : a = b := UInt8.toNat_inj.mp (by omega)
    exact ⟨by omega, by rw [hab, htail]⟩

theorem unpack_inj {as bs : Bytes} (hlen : as.length = bs.length) (h : unpack as = unpack bs) :
    as = bs :=
  (foldl_inj hlen h).2

theorem foldl_lt (bs : Bytes) (m : Nat) :
    bs.foldl (fun n b => n * 256 + b.toNat) m < (m + 1) * 256 ^ bs.length := by
  induction bs generalizing m with
  | nil => simp
  | cons b bs ih =>
    have hb := b.toNat_lt
    rw [List.foldl_cons, List.length_cons, Nat.pow_succ']
    calc _ < (m * 256 + b.toNat + 1) * 256 ^ bs.length := ih _
      _ ≤ ((m + 1) * 256) * 256 ^ bs.length := Nat.mul_le_mul_right _ (by omega)
      _ = (m + 1) * (256 * 256 ^ bs.length) := Nat.mul_assoc ..

theorem unpack_lt (bs : Bytes) : unpack bs < 256 ^ bs.length := by
  have h := foldl_lt bs 0
  rwa [Nat.zero_add, Nat.one_mul] at h

/-! ## Lists -/

theorem mapM_eq_map {α β : Type} {f : α → Option β} {g : α → β} {xs : List α}
    (h : ∀ x ∈ xs, f x = some (g x)) : xs.mapM f = some (xs.map g) := by
  induction xs with
  | nil => rfl
  | cons x xs ih =>
    rw [List.mapM_cons, h x List.mem_cons_self, ih fun y hy => h y (List.mem_cons_of_mem x hy)]
    rfl

theorem mem_of_mapM {α β : Type} {f : α → Option β} {xs : List α} {ys : List β}
    (h : xs.mapM f = some ys) {y : β} (hy : y ∈ ys) : ∃ x ∈ xs, f x = some y := by
  induction xs generalizing ys with
  | nil => cases h; cases hy
  | cons x xs ih =>
    simp only [List.mapM_cons, Option.bind_eq_bind, Option.bind_eq_some_iff, Option.pure_def,
      Option.some.injEq] at h
    obtain ⟨z, hz, zs, hzs, rfl⟩ := h
    rcases List.mem_cons.mp hy with rfl | hy
    · exact ⟨x, List.mem_cons_self, hz⟩
    · obtain ⟨w, hw, hf⟩ := ih hzs hy
      exact ⟨w, List.mem_cons_of_mem x hw, hf⟩

theorem mapM_none {α β : Type} {f : α → Option β} {xs : List α} {x : α} (hx : x ∈ xs)
    (h : f x = none) : xs.mapM f = none := by
  induction xs with
  | nil => cases hx
  | cons y ys ih =>
    rw [List.mapM_cons]
    rcases List.mem_cons.mp hx with rfl | hx
    · rw [h]; rfl
    · rw [ih hx]
      cases f y <;> rfl

/-! ## Distances -/

theorem xorBytes_bytes (as bs : Bytes) :
    xorBytes as (bs.map fun b => .int b.toNat) = some (List.zipWith (· ^^^ ·) as bs) := by
  induction as generalizing bs with
  | nil => cases bs <;> rfl
  | cons a as ih =>
    cases bs with
    | nil => rfl
    | cons b bs =>
      have hb : (0 : Int) ≤ (b.toNat : Int) ∧ (b.toNat : Int) < 256 := by
        have := b.toNat_lt
        omega
      rw [List.map_cons, xorBytes, if_pos hb, ih, Option.map_some, Int.toNat_natCast,
        UInt8.ofNat_toNat, List.zipWith_cons_cons]

theorem xorDistance_bytes (as bs : Bytes) :
    xorDistance (.bytes as) (.bytes bs) = some (unpack (List.zipWith (· ^^^ ·) as bs)) := by
  simp only [xorDistance, elements, xorBytes_bytes, Option.map_some]

/-- Between ids of one length the distance is that of the numbers. -/
theorem xorDistance_eq {as bs : Bytes} (h : as.length = bs.length) :
    xorDistance (.bytes as) (.bytes bs) = some (unpack as ^^^ unpack bs) := by
  rw [xorDistance_bytes, unpack_xor h]

/-- How far an entry is from `target`. -/
def distance (target : Bytes) (e : Bencode.Key × Addr) : Nat :=
  (xorDistance e.1 (.bytes target)).getD 0

theorem closestNodes_bytes {table : Dict Bencode.Key Addr}
    (h : ∀ e ∈ table.entries, ∃ id, e.1 = .bytes id) (target : Bytes) :
    closestNodes table (.bytes target) =
      some (((sortBy (distance target) table.entries).take 8).flatMap compactNode) := by
  have hm : (table.entries.mapM fun e => (xorDistance e.1 (.bytes target)).map fun d => (d, e)) =
      some (table.entries.map fun e => (distance target e, e)) := by
    refine mapM_eq_map fun e he => ?_
    obtain ⟨id, hid⟩ := h e he
    rw [distance, hid, xorDistance_bytes]
    rfl
  have hsort := List.map_insertionSort (r := fun x y => distance target x ≤ distance target y)
    (s := fun x y => x.1 ≤ y.1) (fun e => (distance target e, e)) table.entries
    fun _ _ _ _ => Iff.rfl
  rw [closestNodes, hm, Option.map_some, ← hsort, ← List.map_take, List.flatMap_map]
  rfl

/-- A key that is no byte string has no distance. -/
theorem closestNodes_int {table : Dict Bencode.Key Addr} {n : Int} {addr : Addr}
    (h : (.int n, addr) ∈ table.entries) (target : Value) :
    closestNodes table target = none := by
  rw [closestNodes, mapM_none h (by simp [xorDistance])]
  rfl

/-! ## Records -/

/-- What is read, as an entry of the routing table. -/
def entry (r : Bytes × Addr) : Bencode.Key × Addr := (.bytes r.1, r.2)

/-- A record that keeps its width: an id of 20 bytes, a port of two. -/
structure Fits (r : Bytes × Addr) : Prop where
  id : r.1.length = 20
  port : r.2.port < 65536

theorem compactNode_entry {r : Bytes × Addr} (h : Fits r) :
    compactNode (entry r) = r.1 ++ r.2.ip.aton ++ beBytes 2 r.2.port := by
  simp only [compactNode, entry, pack_of_lt (show r.2.port < 256 ^ 2 from h.port)]

theorem length_compactNode {r : Bytes × Addr} (h : Fits r) :
    (compactNode (entry r)).length = 26 := by
  simp [compactNode_entry h, h.id, Ip.aton]

theorem length_compactNodes {rs : List (Bytes × Addr)} (h : ∀ r ∈ rs, Fits r) :
    (rs.flatMap fun r => compactNode (entry r)).length = 26 * rs.length := by
  induction rs with
  | nil => rfl
  | cons r rs ih =>
    rw [List.flatMap_cons, List.length_append, length_compactNode (h r List.mem_cons_self),
      ih fun s hs => h s (List.mem_cons_of_mem r hs), List.length_cons]
    omega

/-- A record is read back, whatever stands around it. -/
theorem nodeAt_compactNode {r : Bytes × Addr} (h : Fits r) (before after : Bytes) :
    nodeAt (before ++ (compactNode (entry r) ++ after)) before.length = some r := by
  obtain ⟨id, ⟨ip, port⟩⟩ := r
  have hid : id.length = 20 := h.id
  have hlt : port < 256 ^ 2 := h.port
  have hport : unpack (beBytes 2 port) = port := by rw [unpack_beBytes, Nat.mod_eq_of_lt hlt]
  have h20 : (before ++ (id ++ ip.aton ++ beBytes 2 port ++ after)).drop (before.length + 20) =
      ip.aton ++ (beBytes 2 port ++ after) := by
    simp [List.drop_append, hid]
  have h24 : (before ++ (id ++ ip.aton ++ beBytes 2 port ++ after)).drop (before.length + 24) =
      beBytes 2 port ++ after := by
    rw [← List.drop_drop (i := 4) (j := before.length + 20), h20]
    rfl
  have h0 : (id ++ ip.aton ++ beBytes 2 port ++ after).take 20 = id := by
    rw [List.append_assoc, List.append_assoc, List.take_left' hid]
  rw [compactNode_entry h, nodeAt, h20, h24, List.drop_left, h0,
    List.take_left' (length_beBytes 2 port), hport]
  rfl

/-- The loop of the reader over records that fit. -/
theorem read_records {rs : List (Bytes × Addr)} (h : ∀ r ∈ rs, Fits r) (before : Bytes) :
    ((List.range' before.length rs.length 26).takeWhile fun i =>
      i + 26 ≤ (before ++ rs.flatMap fun r => compactNode (entry r)).length).mapM
        (nodeAt (before ++ rs.flatMap fun r => compactNode (entry r))) = some rs := by
  induction rs generalizing before with
  | nil => rfl
  | cons r rs ih =>
    have hr := h r List.mem_cons_self
    have hrs : ∀ s ∈ rs, Fits s := fun s hs => h s (List.mem_cons_of_mem r hs)
    have hlen : (before ++ compactNode (entry r)).length = before.length + 26 := by
      rw [List.length_append, length_compactNode hr]
    have hrest := ih hrs (before ++ compactNode (entry r))
    rw [hlen, List.append_assoc] at hrest
    have hin : before.length + 26 ≤
        (before ++ (compactNode (entry r) ++
          rs.flatMap fun r => compactNode (entry r))).length := by
      rw [List.length_append, List.length_append, length_compactNode hr]
      omega
    rw [List.flatMap_cons, List.length_cons, List.range'_succ, List.takeWhile_cons,
      if_pos (decide_eq_true hin), List.mapM_cons, nodeAt_compactNode hr, hrest]
    rfl

theorem parseNodes_compact {rs : List (Bytes × Addr)} (h : ∀ r ∈ rs, Fits r) :
    parseNodes (.bytes (rs.flatMap fun r => compactNode (entry r))) = some rs := by
  have hrounds : ((rs.flatMap fun r => compactNode (entry r)).length + 25) / 26 = rs.length := by
    rw [length_compactNodes h]
    omega
  rw [parseNodes, hrounds]
  exact read_records h []

/-- Whatever is read has the width of a record. -/
theorem parseNodes_fits {v : Value} {rs : List (Bytes × Addr)} (h : parseNodes v = some rs) :
    ∀ r ∈ rs, Fits r := by
  intro r hr
  cases v with
  | int n => cases h
  | bytes data =>
    obtain ⟨i, hi, hat⟩ := mem_of_mapM h hr
    have hlen : i + 26 ≤ data.length := by
      have := List.mem_takeWhile_imp hi
      exact of_decide_eq_true this
    obtain ⟨ip, -, rfl⟩ := Option.map_eq_some_iff.mp hat
    refine ⟨by simp only [List.length_take, List.length_drop]; omega, ?_⟩
    have htwo : ((data.drop (i + 24)).take 2).length = 2 := by
      simp only [List.length_take, List.length_drop]
      omega
    have hlt := unpack_lt ((data.drop (i + 24)).take 2)
    rwa [htwo] at hlt
  | list xs =>
    rw [parseNodes] at h
    split at h <;> cases h
    cases hr
  | dict es =>
    rw [parseNodes] at h
    split at h <;> cases h
    cases hr

/-! ## Faithful lists -/

/-- What `_parse_nodes` makes of `_get_closest_nodes` are the at most eight
entries that are nearest to `target`, in order of distance. -/
def Faithful (table : Dict Bencode.Key Addr) (target : Bytes) : Prop :=
  ∃ data nodes, closestNodes table (.bytes target) = some data ∧
    parseNodes (.bytes data) = some nodes ∧
    ∀ ys, Nearest (distance target) 8 table.entries ys ↔ ys = nodes.map entry

def IsNodeId : Bencode.Key → Prop
  | .bytes id => id.length = 20
  | .int _ => False

instance : DecidablePred IsNodeId
  | .bytes id => inferInstanceAs (Decidable (id.length = 20))
  | .int _ => inferInstanceAs (Decidable False)

variable {table : Dict Bencode.Key Addr}

theorem exists_records {es : List (Bencode.Key × Addr)}
    (h : ∀ e ∈ es, IsNodeId e.1 ∧ e.2.port < 65536) :
    ∃ rs : List (Bytes × Addr), (∀ r ∈ rs, Fits r) ∧ es = rs.map entry := by
  induction es with
  | nil => exact ⟨[], fun _ hr => (by cases hr), rfl⟩
  | cons e es ih =>
    obtain ⟨rs, hrs, rfl⟩ := ih fun f hf => h f (List.mem_cons_of_mem e hf)
    obtain ⟨hid, hport⟩ := h e List.mem_cons_self
    obtain ⟨key, addr⟩ := e
    cases key with
    | int n => exact hid.elim
    | bytes id =>
      refine ⟨(id, addr) :: rs, fun r hr => ?_, rfl⟩
      rcases List.mem_cons.mp hr with rfl | hr
      · exact ⟨hid, hport⟩
      · exact hrs r hr

/-- Ids of the target's length are told apart by their distance to it. -/
theorem distance_inj {target a b : Bytes} {x y : Addr} (ha : a.length = target.length)
    (hb : b.length = target.length)
    (h : distance target (.bytes a, x) = distance target (.bytes b, y)) : a = b := by
  simp only [distance, xorDistance_eq ha, xorDistance_eq hb, Option.getD_some] at h
  have hnum := congrArg (· ^^^ unpack target) h
  simp only [Nat.xor_assoc, Nat.xor_self, Nat.xor_zero] at hnum
  exact unpack_inj (ha.trans hb.symm) hnum

theorem faithful_of_ids (hid : ∀ e ∈ table.entries, IsNodeId e.1)
    (hport : ∀ e ∈ table.entries, e.2.port < 65536) {target : Bytes} (ht : target.length = 20) :
    Faithful table target := by
  have hbytes : ∀ e ∈ table.entries, ∃ id, e.1 = .bytes id := by
    intro e he
    have h := hid e he
    cases hk : e.1 with
    | int n => rw [hk] at h; exact h.elim
    | bytes id => exact ⟨id, rfl⟩
  have hinj : ∀ x ∈ table.entries, ∀ y ∈ table.entries,
      distance target x = distance target y → x = y := by
    rintro ⟨k, x⟩ hx ⟨j, y⟩ hy hd
    obtain ⟨a, rfl : k = .bytes a⟩ := hbytes _ hx
    obtain ⟨b, rfl : j = .bytes b⟩ := hbytes _ hy
    have hab := distance_inj ((hid _ hx).trans ht.symm) ((hid _ hy).trans ht.symm) hd
    subst hab
    rw [Dict.mem_entries] at hx hy
    rw [hx] at hy
    cases hy
    rfl
  have hnear := nearest_take_sort (distance target) 8 table.entries
  obtain ⟨rs, hrs, heq⟩ := exists_records fun e he =>
    ⟨hid e (hnear.mem he), hport e (hnear.mem he)⟩
  refine ⟨_, rs, closestNodes_bytes hbytes target, ?_, fun ys => ⟨fun hys => ?_, fun hys => ?_⟩⟩
  · rw [heq, List.flatMap_map]
    exact parseNodes_compact hrs
  · rw [← heq]
    exact hys.eq_take_sort hinj
  · rw [hys, ← heq]
    exact hnear

/-- The target that an id of another length is at distance zero of. -/
def shadow (id : Bytes) : Bytes := (id ++ List.replicate 20 0).take 20

theorem zipWith_zeros (as bs : Bytes) (n : Nat) :
    ∀ b ∈ List.zipWith (· ^^^ ·) as ((as ++ bs).take n), b = 0 := by
  induction as generalizing n with
  | nil => intro b hb; cases hb
  | cons a as ih =>
    cases n with
    | zero => intro b hb; cases hb
    | succ n =>
      intro b hb
      rw [List.cons_append, List.take_succ_cons, List.zipWith_cons_cons, UInt8.xor_self] at hb
      rcases List.mem_cons.mp hb with rfl | hb
      · rfl
      · exact ih n b hb

theorem unpack_zeros {bs : Bytes} (h : ∀ b ∈ bs, b = 0) : unpack bs = 0 := by
  induction bs with
  | nil => rfl
  | cons b bs ih =>
    rw [h b List.mem_cons_self]
    exact ih fun c hc => h c (List.mem_cons_of_mem b hc)

theorem distance_shadow (id : Bytes) (addr : Addr) :
    distance (shadow id) (.bytes id, addr) = 0 := by
  rw [distance, xorDistance_bytes, Option.getD_some]
  exact unpack_zeros (zipWith_zeros id _ 20)

/-- An id of another length is left out, and with it whatever is farther. -/
theorem not_faithful {id : Bytes} {addr : Addr} (he : (.bytes id, addr) ∈ table.entries)
    (hid : id.length ≠ 20) : ¬ Faithful table (shadow id) := by
  rintro ⟨data, nodes, -, hparse, huniq⟩
  have hnear := (huniq _).mpr rfl
  have hfits := parseNodes_fits hparse
  have hlen : (shadow id).length = 20 := by simp [shadow]
  have hout : (.bytes id, addr) ∉ nodes.map entry := by
    intro hmem
    obtain ⟨r, hr, hre⟩ := List.mem_map.mp hmem
    cases hre
    exact hid (hfits r hr).id
  -- what was read is at distance zero, which is the target alone
  have htarget : ∀ r ∈ nodes, r.1 = shadow id := by
    intro r hr
    have hle := hnear.le_of_notMem he hout (List.mem_map_of_mem hr)
    rw [distance_shadow, Nat.le_zero] at hle
    refine distance_inj ((hfits r hr).id.trans hlen.symm) rfl (x := r.2) (y := r.2) ?_
    rw [show ((.bytes r.1, r.2) : Bencode.Key × Addr) = entry r from rfl, hle, distance,
      xorDistance_eq rfl, Option.getD_some, Nat.xor_self]
  obtain ⟨rest, hperm, -⟩ := hnear.others
  have hkeys : ((nodes.map entry).map Prod.fst).Nodup := by
    have hnodup := (hperm.map Prod.fst).nodup_iff.mpr table.nodup
    rw [List.map_append] at hnodup
    exact (List.nodup_append.mp hnodup).1
  have hsize := hnear.length
  have htwo := hperm.length_eq
  have hin : (.bytes id, addr) ∈ rest :=
    (List.mem_append.mp (hperm.mem_iff.mpr he)).resolve_left hout
  have hpos := List.length_pos_of_mem hin
  rw [List.length_map] at hsize
  rw [List.length_append, List.length_map] at htwo
  match nodes, hkeys, htarget, hsize, htwo with
  | [], _, _, hsize, htwo => simp only [List.length_nil] at hsize htwo; omega
  | [_], _, _, hsize, htwo =>
    simp only [List.length_cons, List.length_nil] at hsize htwo
    omega
  | r :: s :: _, hkeys, htarget, _, _ =>
    have hr := htarget r List.mem_cons_self
    have hs := htarget s (List.mem_cons_of_mem _ List.mem_cons_self)
    simp [entry, hr, hs] at hkeys

/-- Over every target the lists are faithful exactly when every id has 20 bytes. -/
theorem faithful_iff (hport : ∀ e ∈ table.entries, e.2.port < 65536) :
    (∀ target : Bytes, target.length = 20 → Faithful table target) ↔
      ∀ e ∈ table.entries, IsNodeId e.1 := by
  constructor
  · rintro h ⟨key, addr⟩ he
    cases key with
    | int n =>
      obtain ⟨data, nodes, hdata, -⟩ := h (List.replicate 20 0) rfl
      rw [closestNodes_int he] at hdata
      cases hdata
    | bytes id =>
      by_contra hid
      exact not_faithful he hid (h (shadow id) (by simp [shadow]))
  · intro h target ht
    exact faithful_of_ids h hport ht

end Wormhole.L4.Dht
