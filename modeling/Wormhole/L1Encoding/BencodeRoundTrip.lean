import Wormhole.L1Encoding.BencodeRead

/-!
# Bencode round trips

`bencode_roundTrip`: what `_bencode` makes of a value, `_bdecode_item` reads as an
equal value and stops where the encoding ends, and equal dicts have the same
encoding, in whatever order their keys were inserted.

A value of lists and dicts is read by induction: `ReadsAs` says what an encoding is
read as at every position and before every rest, `ItemsReadAs` and `entries_read`
what the loops make of the encodings of items and entries.
-/
namespace Wormhole.L1.Bencode

/-! ## Values -/

mutual

/-- `v == w`: dicts are compared without their order. -/
def Value.eq : Value → Value → Bool
  | .int n, .int m => n = m
  | .bytes bs, .bytes cs => bs = cs
  | .list xs, .list ys => eqItems xs ys
  | .dict es, .dict fs => es.length = fs.length && eqEntries es fs
  | _, _ => false

def eqItems : List Value → List Value → Bool
  | [], [] => true
  | x :: xs, y :: ys => x.eq y && eqItems xs ys
  | _, _ => false

/-- Every entry has an equal one under its key. -/
def eqEntries : List (Key × Value) → List (Key × Value) → Bool
  | [], _ => true
  | (k, v) :: es, fs =>
    (match Dict.lookup k fs with
      | some w => v.eq w
      | none => false) && eqEntries es fs

end

mutual

/-- Integers and lengths that the interpreter prints, and dicts with byte strings
for keys, no two the same. -/
def Value.Codable : Value → Prop
  | .int n => (toString n.natAbs).length ≤ maxStrDigits
  | .bytes bs => (toString bs.length).length ≤ maxStrDigits
  | .list xs => CodableItems xs
  | .dict es => CodableEntries es ∧ (es.map Prod.fst).Nodup

def CodableItems : List Value → Prop
  | [] => True
  | x :: xs => x.Codable ∧ CodableItems xs

def CodableEntries : List (Key × Value) → Prop
  | [] => True
  | (k, v) :: es => (∃ bs, k = .bytes bs ∧ (toString bs.length).length ≤ maxStrDigits) ∧
      v.Codable ∧ CodableEntries es

end

theorem Value.depth_pos (v : Value) : 1 ≤ v.depth := by
  cases v with
  | int | bytes => exact Nat.le_refl 1
  | list | dict =>
    simp only [Value.depth]
    omega

theorem ReadsAs.mono {d d' : Nat} {bs : Bytes} {v : Value} (h : ReadsAs d bs v) (hle : d ≤ d') :
    ReadsAs d' bs v := by
  obtain ⟨n, hn⟩ := h
  exact ⟨n, fun pre rest fuel k hfuel hk => hn pre rest fuel k hfuel (Nat.le_trans hle hk)⟩

/-- An item does not begin like the end of a list. -/
def Opens (bs : Bytes) : Prop := ∃ b rest, bs = b :: rest ∧ b ≠ 101

theorem opens_lengthPrefixed (bs : Bytes) : Opens (lengthPrefixed bs) := by
  rw [lengthPrefixed_eq]
  cases hdec : decimal bs.length with
  | nil => exact absurd hdec (decimal_ne_nil _)
  | cons b ds =>
    refine ⟨b, _, rfl, ?_⟩
    have := mem_decimal (n := bs.length) (hdec ▸ List.mem_cons_self)
    rintro rfl
    revert this
    decide

theorem slice_opens {pre bs rest : Bytes} (h : Opens bs) :
    slice (pre ++ (bs ++ rest)) pre.length (pre.length + 1) ≠ encode "e" := by
  obtain ⟨b, tl, rfl, hb⟩ := h
  have he : encode "e" = [101] := by decide
  rw [List.cons_append, slice_head, he]
  intro h
  cases h
  exact hb rfl

/-! ## Lists and dicts -/

/-- What the loop over a list reads. -/
def ItemsReadAs (depth : Nat) (bs : Bytes) (vs : List Value) : Prop :=
  ∃ n, ∀ pre rest fuel d, n ≤ fuel → depth ≤ d →
    decodeItems (pre ++ (bs ++ 101 :: rest)) fuel d pre.length =
      .done (vs, pre.length + bs.length + 1)

theorem itemsReadAs_nil (depth : Nat) : ItemsReadAs depth [] [] := by
  refine ⟨1, fun pre rest fuel d hfuel _ => ?_⟩
  obtain ⟨fuel, rfl⟩ := Nat.exists_eq_add_of_le' hfuel
  have he : encode "e" = [101] := by decide
  rw [decodeItems, List.nil_append, slice_head, if_pos he.symm]
  simp

theorem ItemsReadAs.mono {d d' : Nat} {bs : Bytes} {vs : List Value} (h : ItemsReadAs d bs vs)
    (hle : d ≤ d') : ItemsReadAs d' bs vs := by
  obtain ⟨n, hn⟩ := h
  exact ⟨n, fun pre rest fuel k hfuel hk => hn pre rest fuel k hfuel (Nat.le_trans hle hk)⟩

theorem ItemsReadAs.cons {depth : Nat} {bs cs : Bytes} {v : Value} {vs : List Value}
    (hv : ReadsAs depth bs v) (ho : Opens bs) (hvs : ItemsReadAs depth cs vs) :
    ItemsReadAs depth (bs ++ cs) (v :: vs) := by
  obtain ⟨n, hn⟩ := hv
  obtain ⟨m, hm⟩ := hvs
  refine ⟨n + m + 1, fun pre rest fuel d hfuel hd => ?_⟩
  obtain ⟨fuel, rfl⟩ := Nat.exists_eq_add_of_le' (Nat.le_trans (Nat.le_add_left 1 _) hfuel)
  have hitem := hn pre (cs ++ 101 :: rest) fuel d (by omega) hd
  have hitems := hm (pre ++ bs) rest fuel d (by omega) hd
  rw [List.append_assoc, List.length_append, Int.natCast_add] at hitems
  rw [List.append_assoc, decodeItems, if_neg (slice_opens ho), hitem]
  simp only [Decoded.bind, hitems]
  congr 2
  simp only [List.length_append]
  omega

theorem ItemsReadAs.list {depth : Nat} {bs : Bytes} {vs : List Value}
    (h : ItemsReadAs depth bs vs) :
    ReadsAs (1 + depth) (encode "l" ++ bs ++ encode "e") (.list vs) := by
  obtain ⟨n, hn⟩ := h
  refine ⟨n + 1, fun pre rest fuel d hfuel hd => ?_⟩
  obtain ⟨fuel, rfl⟩ := Nat.exists_eq_add_of_le' (Nat.le_trans (Nat.le_add_left 1 _) hfuel)
  obtain ⟨d, rfl⟩ := Nat.exists_eq_add_of_le' (Nat.le_trans (Nat.le_add_right 1 _) hd)
  have hi : encode "i" = [105] := by decide
  have hl : encode "l" = [108] := by decide
  have he : encode "e" = [101] := by decide
  have hdata : pre ++ (encode "l" ++ bs ++ encode "e" ++ rest) =
      pre ++ 108 :: (bs ++ 101 :: rest) := by
    simp only [hl, he, List.append_assoc, List.cons_append, List.nil_append]
  have hitems := hn (pre ++ [108]) rest fuel d (by omega) (by omega)
  simp only [List.append_assoc, List.cons_append, List.nil_append, List.length_append,
    List.length_singleton, Int.natCast_add, Int.natCast_one] at hitems
  rw [hdata, decodeItem, slice_head, hi, hl, if_neg (by decide), if_pos rfl, hitems]
  simp only [Decoded.bind]
  congr 2
  simp only [he, List.length_append, List.length_singleton]
  omega

/-- An entry as it is encoded, with what its value is read as. -/
structure Item where
  key : Bytes
  encoded : Bytes
  value : Value

def Item.bytes (e : Item) : Bytes := lengthPrefixed e.key ++ e.encoded

def Item.entry (e : Item) : Key × Value := (.bytes e.key, e.value)

/-- An entry that is read as it was written. -/
structure Item.Sound (depth : Nat) (e : Item) : Prop where
  key : ReadsAs depth (lengthPrefixed e.key) (.bytes e.key)
  value : ReadsAs depth e.encoded e.value

/-- The loop over a dict, whose keys are all new. -/
theorem entries_read {depth : Nat} {items : List Item} (h : ∀ e ∈ items, e.Sound depth)
    (hn : (items.map Item.key).Nodup) :
    ∃ n, ∀ pre rest fuel d before, n ≤ fuel → depth ≤ d →
      (∀ e ∈ items, Key.bytes e.key ∉ before.map Prod.fst) →
      decodeEntries (pre ++ (items.flatMap Item.bytes ++ 101 :: rest)) fuel d before pre.length =
        .done (before ++ items.map Item.entry,
          pre.length + (items.flatMap Item.bytes).length + 1) := by
  induction items with
  | nil =>
    refine ⟨1, fun pre rest fuel d before hfuel _ _ => ?_⟩
    obtain ⟨fuel, rfl⟩ := Nat.exists_eq_add_of_le' hfuel
    have he : encode "e" = [101] := by decide
    rw [List.flatMap_nil, decodeEntries, List.nil_append, slice_head, if_pos he.symm]
    simp
  | cons e items ih =>
    obtain ⟨m, hm⟩ := ih (fun f hf => h f (List.mem_cons_of_mem e hf))
      (List.nodup_cons.mp hn).2
    obtain ⟨hkey, hvalue⟩ := h e List.mem_cons_self
    obtain ⟨k, hk⟩ := hkey
    obtain ⟨v, hv⟩ := hvalue
    refine ⟨k + v + m + 1, fun pre rest fuel d before hfuel hd hnew => ?_⟩
    obtain ⟨fuel, rfl⟩ := Nat.exists_eq_add_of_le' (Nat.le_trans (Nat.le_add_left 1 _) hfuel)
    have hbytes : (e :: items).flatMap Item.bytes ++ 101 :: rest =
        lengthPrefixed e.key ++ (e.encoded ++ (items.flatMap Item.bytes ++ 101 :: rest)) := by
      simp only [List.flatMap_cons, Item.bytes, List.append_assoc]
    have hk' := hk pre (e.encoded ++ (items.flatMap Item.bytes ++ 101 :: rest)) fuel d
      (by omega) hd
    have hv' := hv (pre ++ lengthPrefixed e.key) (items.flatMap Item.bytes ++ 101 :: rest) fuel d
      (by omega) hd
    have hassign : Dict.assign (.bytes e.key) e.value before = before ++ [e.entry] :=
      Dict.assign_of_notMem (hnew e List.mem_cons_self) e.value
    have hnew' : ∀ f ∈ items, Key.bytes f.key ∉ (before ++ [e.entry]).map Prod.fst := by
      intro f hf hmem
      rw [List.map_append, List.mem_append] at hmem
      rcases hmem with hmem | hmem
      · exact hnew f (List.mem_cons_of_mem e hf) hmem
      · have heq : f.key = e.key := by simpa [Item.entry] using hmem
        exact (List.nodup_cons.mp hn).1 (heq ▸ List.mem_map_of_mem hf)
    have hrest := hm (pre ++ lengthPrefixed e.key ++ e.encoded) rest fuel d
      (before ++ [e.entry]) (by omega) hd hnew'
    simp only [List.append_assoc, List.length_append, Int.natCast_add] at hv' hrest
    rw [hbytes, decodeEntries, if_neg (slice_opens (opens_lengthPrefixed e.key)), hk']
    simp only [Decoded.bind, hv', Value.key, hassign]
    rw [← Int.add_assoc] at hrest
    simp only [hrest]
    congr 2
    simp only [List.flatMap_cons, Item.bytes, List.length_append, Int.natCast_add]
    omega

theorem dict_read {depth : Nat} {items : List Item} (h : ∀ e ∈ items, e.Sound depth)
    (hn : (items.map Item.key).Nodup) :
    ReadsAs (1 + depth) (encode "d" ++ items.flatMap Item.bytes ++ encode "e")
      (.dict (items.map Item.entry)) := by
  obtain ⟨n, hread⟩ := entries_read h hn
  refine ⟨n + 1, fun pre rest fuel d hfuel hd => ?_⟩
  obtain ⟨fuel, rfl⟩ := Nat.exists_eq_add_of_le' (Nat.le_trans (Nat.le_add_left 1 _) hfuel)
  obtain ⟨d, rfl⟩ := Nat.exists_eq_add_of_le' (Nat.le_trans (Nat.le_add_right 1 _) hd)
  have hi : encode "i" = [105] := by decide
  have hl : encode "l" = [108] := by decide
  have hd' : encode "d" = [100] := by decide
  have he : encode "e" = [101] := by decide
  have hdata : pre ++ (encode "d" ++ items.flatMap Item.bytes ++ encode "e" ++ rest) =
      pre ++ 100 :: (items.flatMap Item.bytes ++ 101 :: rest) := by
    simp only [hd', he, List.append_assoc, List.cons_append, List.nil_append]
  have hentries := hread (pre ++ [100]) rest fuel d [] (by omega) (by omega)
    fun e _ => List.not_mem_nil
  simp only [List.append_assoc, List.cons_append, List.nil_append, List.length_append,
    List.length_singleton, Int.natCast_add, Int.natCast_one] at hentries
  rw [hdata, decodeItem, slice_head, hi, hl, hd', if_neg (by decide), if_neg (by decide),
    if_pos rfl, hentries]
  simp only [Decoded.bind]
  congr 2
  simp only [he, List.length_append, List.length_singleton]
  omega

/-! ## The round trip -/

/-- The entries in the order in which they are sent. -/
def sortByKey (items : List Item) : List Item := items.insertionSort fun e f => e.key ≤ f.key

theorem sortItems_pairs (items : List Item) :
    (sortItems (items.map fun e => (e.key, e.encoded))).flatMap
        (fun e => lengthPrefixed e.1 ++ e.2) = (sortByKey items).flatMap Item.bytes := by
  have hsort : (sortByKey items).map (fun e => (e.key, e.encoded)) =
      sortItems (items.map fun e => (e.key, e.encoded)) :=
    List.map_insertionSort _ _ _ _ fun _ _ _ _ => Iff.rfl
  rw [← hsort, List.flatMap_map]
  rfl

/-- Every key of the entries has an equal value on the other side. -/
theorem lookup_entry {items : List Item} (hn : (items.map Item.key).Nodup) {e : Item}
    (he : e ∈ items) : Dict.lookup (.bytes e.key) (items.map Item.entry) = some e.value := by
  refine Dict.lookup_of_mem ?_ (List.mem_map_of_mem he)
  have hkeys : (items.map Item.entry).map Prod.fst = (items.map Item.key).map Key.bytes := by
    simp only [List.map_map]
    rfl
  rw [hkeys]
  exact hn.map fun a b h => by cases h; rfl

mutual

theorem read_value : (v : Value) → v.Codable →
    ∃ bs w, bencode v = some bs ∧ Opens bs ∧ ReadsAs v.depth bs w ∧ v.eq w = true
  | .int n, h => by
    have hi : encode "i" = [105] := by decide
    refine ⟨_, .int n, if_pos h, ⟨105, _, by rw [hi]; rfl, by decide⟩, reads_int h, ?_⟩
    simp [Value.eq]
  | .bytes bs, h => by
    refine ⟨_, .bytes bs, rfl, opens_lengthPrefixed bs, reads_bytes h, ?_⟩
    simp [Value.eq]
  | .list xs, h => by
    obtain ⟨bs, ws, hbs, hread, heq⟩ := read_items xs h
    have hl : encode "l" = [108] := by decide
    exact ⟨_, .list ws, by rw [bencode, hbs]; rfl, ⟨108, _, by rw [hl]; rfl, by decide⟩,
      hread.list, heq⟩
  | .dict es, h => by
    obtain ⟨items, hitems, hkeys, hsound, heq⟩ := read_entries es h.1
    have hperm : (sortByKey items).Perm items := List.perm_insertionSort _ items
    have hn : (items.map Item.key).Nodup := by
      have hnodup := h.2
      rw [hkeys] at hnodup
      exact List.Nodup.of_map Key.bytes (by rw [List.map_map]; exact hnodup)
    have hn' : ((sortByKey items).map Item.key).Nodup := (hperm.map Item.key).nodup_iff.mpr hn
    have hlen : es.length = ((sortByKey items).map Item.entry).length := by
      have := congrArg List.length hkeys
      rw [List.length_map, List.length_map] at this
      rw [List.length_map, hperm.length_eq, this]
    have hd : encode "d" = [100] := by decide
    refine ⟨_, .dict ((sortByKey items).map Item.entry), by rw [bencode, hitems]; rfl,
      ⟨100, _, by rw [hd]; rfl, by decide⟩, ?_, ?_⟩
    · simp only [sortItems_pairs]
      exact dict_read (fun e he => hsound e (hperm.mem_iff.mp he)) hn'
    · rw [Value.eq, Bool.and_eq_true, decide_eq_true_eq]
      exact ⟨hlen, heq _ fun e he => lookup_entry hn' (hperm.mem_iff.mpr he)⟩

theorem read_items : (xs : List Value) → CodableItems xs →
    ∃ bs ws, bencodeItems xs = some bs ∧ ItemsReadAs (depthItems xs) bs ws ∧
      eqItems xs ws = true
  | [], _ => ⟨[], [], rfl, itemsReadAs_nil 0, rfl⟩
  | x :: xs, h => by
    obtain ⟨bs, w, hbs, hopens, hread, heq⟩ := read_value x h.1
    obtain ⟨cs, ws, hcs, hreads, heqs⟩ := read_items xs h.2
    refine ⟨bs ++ cs, w :: ws, by rw [bencodeItems, hbs, hcs]; rfl, ?_, ?_⟩
    · exact .cons (hread.mono (Nat.le_max_left _ _)) hopens (hreads.mono (Nat.le_max_right _ _))
    · rw [eqItems, heq, heqs]
      rfl

theorem read_entries : (es : List (Key × Value)) → CodableEntries es →
    ∃ items : List Item, bencodeEntries es = some (items.map fun e => (e.key, e.encoded)) ∧
      es.map Prod.fst = items.map (fun e => Key.bytes e.key) ∧
      (∀ e ∈ items, e.Sound (depthEntries es)) ∧
      ∀ fs, (∀ e ∈ items, Dict.lookup (.bytes e.key) fs = some e.value) → eqEntries es fs = true
  | [], _ => ⟨[], rfl, rfl, fun _ he => absurd he List.not_mem_nil, fun _ _ => rfl⟩
  | (k, v) :: es, h => by
    obtain ⟨⟨key, rfl, hkey⟩, hv, hes⟩ := h
    obtain ⟨bs, w, hbs, -, hread, heq⟩ := read_value v hv
    obtain ⟨items, hitems, hkeys, hsound, heqs⟩ := read_entries es hes
    have hpos := v.depth_pos
    refine ⟨⟨key, bs, w⟩ :: items, by rw [bencodeEntries, hbs, hitems]; rfl, ?_, ?_, ?_⟩
    · rw [List.map_cons, hkeys, List.map_cons]
    · intro e he
      simp only [depthEntries]
      rcases List.mem_cons.mp he with rfl | he
      · exact ⟨(reads_bytes hkey).mono (by omega), hread.mono (Nat.le_max_left _ _)⟩
      · exact ⟨(hsound e he).key.mono (Nat.le_max_right _ _),
          (hsound e he).value.mono (Nat.le_max_right _ _)⟩
    · intro fs hfs
      have hlookup := hfs ⟨key, bs, w⟩ List.mem_cons_self
      simp only [eqEntries, hlookup, heq, Bool.true_and]
      exact heqs fs fun e he => hfs e (List.mem_cons_of_mem _ he)

end

/-! ## One encoding for equal values -/

theorem keys_of_bencodeEntries {es : List (Key × Value)} {items : List (Bytes × Bytes)}
    (h : bencodeEntries es = some items) : es.map Prod.fst = items.map fun e => Key.bytes e.1 := by
  induction es generalizing items with
  | nil =>
    cases h
    rfl
  | cons e es ih =>
    obtain ⟨k, v⟩ := e
    cases k with
    | int n => cases h
    | bytes k =>
      simp only [bencodeEntries, Option.bind_eq_some_iff, Option.map_eq_some_iff] at h
      obtain ⟨bs, -, rest, hrest, rfl⟩ := h
      rw [List.map_cons, List.map_cons, ih hrest]

theorem mem_of_bencodeEntries {es : List (Key × Value)} {items : List (Bytes × Bytes)}
    (h : bencodeEntries es = some items) {k : Bytes} {v : Value} (hm : (Key.bytes k, v) ∈ es) :
    ∃ bs, bencode v = some bs ∧ (k, bs) ∈ items := by
  induction es generalizing items with
  | nil => cases hm
  | cons e es ih =>
    obtain ⟨k', v'⟩ := e
    cases k' with
    | int n => cases h
    | bytes k' =>
      simp only [bencodeEntries, Option.bind_eq_some_iff, Option.map_eq_some_iff] at h
      obtain ⟨bs, hbs, rest, hrest, rfl⟩ := h
      rcases List.mem_cons.mp hm with he | hm
      · cases he
        exact ⟨bs, hbs, List.mem_cons_self⟩
      · obtain ⟨cs, hcs, hmem⟩ := ih hrest hm
        exact ⟨cs, hcs, List.mem_cons_of_mem _ hmem⟩

/-- The order in which entries of distinct keys come makes no difference. -/
theorem sortItems_perm {as bs : List (Bytes × Bytes)} (hp : as.Perm bs)
    (hn : (as.map Prod.fst).Nodup) : sortItems as = sortItems bs := by
  have hsort : ∀ es : List (Bytes × Bytes), (sortItems es).Pairwise fun a b => a.1 ≤ b.1 := by
    intro es
    have : IsTrans (Bytes × Bytes) fun a b => a.1 ≤ b.1 := ⟨fun _ _ _ => List.le_trans⟩
    have : Std.Total (α := Bytes × Bytes) fun a b => a.1 ≤ b.1 := ⟨fun a b => List.le_total a.1 b.1⟩
    exact List.pairwise_insertionSort _ es
  have hpa : (sortItems as).Perm as := List.perm_insertionSort _ as
  have hpb : (sortItems bs).Perm bs := List.perm_insertionSort _ bs
  refine List.Perm.eq_of_pairwise (fun a b ha hb hab hba => ?_) (hsort as) (hsort bs)
    (hpa.trans (hp.trans hpb.symm))
  have ha' : a ∈ as := hpa.mem_iff.mp ha
  have hb' : b ∈ as := hp.mem_iff.mpr (hpb.mem_iff.mp hb)
  exact List.inj_on_of_nodup_map hn ha' hb' (List.le_antisymm hab hba)

theorem codable_of_mem {es : List (Key × Value)} (h : CodableEntries es) {e : Key × Value}
    (he : e ∈ es) : e.2.Codable := by
  induction es with
  | nil => cases he
  | cons f es ih =>
    obtain ⟨k, v⟩ := f
    rcases List.mem_cons.mp he with rfl | he
    · exact h.2.1
    · exact ih h.2.2 he

mutual

theorem bencode_eq : (v w : Value) → v.Codable → w.Codable → v.eq w = true →
    bencode w = bencode v
  | .int n, w, _, _, he => by
    cases w with
    | int m =>
      simp only [Value.eq, decide_eq_true_eq] at he
      rw [he]
    | bytes | list | dict => simp [Value.eq] at he
  | .bytes bs, w, _, _, he => by
    cases w with
    | bytes cs =>
      simp only [Value.eq, decide_eq_true_eq] at he
      rw [he]
    | int | list | dict => simp [Value.eq] at he
  | .list xs, w, hv, hw, he => by
    cases w with
    | list ys => rw [bencode, bencode, bencodeItems_eq xs ys hv hw he]
    | int | bytes | dict => simp [Value.eq] at he
  | .dict es, w, hv, hw, he => by
    cases w with
    | dict fs =>
      simp only [Value.eq, Bool.and_eq_true, decide_eq_true_eq] at he
      obtain ⟨is, his, -⟩ := read_entries es hv.1
      obtain ⟨js, hjs, -⟩ := read_entries fs hw.1
      generalize (is.map fun e => (e.key, e.encoded)) = as at his
      generalize (js.map fun e => (e.key, e.encoded)) = bs at hjs
      have hkeysA := keys_of_bencodeEntries his
      have hkeysB := keys_of_bencodeEntries hjs
      have hna : (as.map Prod.fst).Nodup := by
        have hnodup := hv.2
        rw [hkeysA] at hnodup
        exact List.Nodup.of_map Key.bytes (by rw [List.map_map]; exact hnodup)
      -- every encoded entry is one of the other side, and there are as many
      have hsub : as ⊆ bs := by
        intro e hmem
        obtain ⟨w, hlookup, henc⟩ := bencodeEntries_eq es fs hv.1
          (fun f hf => codable_of_mem hw.1 hf) he.2 his e hmem
        obtain ⟨bs', hbs', hin⟩ := mem_of_bencodeEntries hjs (Dict.mem_of_lookup hlookup)
        rw [henc] at hbs'
        cases hbs'
        exact hin
      have hlen : as.length = bs.length := by
        have h1 := congrArg List.length hkeysA
        have h2 := congrArg List.length hkeysB
        simp only [List.length_map] at h1 h2
        rw [← h1, he.1, h2]
      have hperm : as.Perm bs :=
        (List.subperm_of_subset (List.Nodup.of_map Prod.fst hna) hsub).perm_of_length_le (by omega)
      rw [bencode, bencode, his, hjs]
      simp only [Option.map_some, sortItems_perm hperm hna]
    | int | bytes | list => simp [Value.eq] at he

theorem bencodeItems_eq : (xs ys : List Value) → CodableItems xs → CodableItems ys →
    eqItems xs ys = true → bencodeItems ys = bencodeItems xs
  | [], ys, _, _, he => by
    cases ys with
    | nil => rfl
    | cons => simp [eqItems] at he
  | x :: xs, ys, hx, hy, he => by
    cases ys with
    | nil => simp [eqItems] at he
    | cons y ys =>
      simp only [eqItems, Bool.and_eq_true] at he
      rw [bencodeItems, bencodeItems, bencode_eq x y hx.1 hy.1 he.1,
        bencodeItems_eq xs ys hx.2 hy.2 he.2]

theorem bencodeEntries_eq : (es fs : List (Key × Value)) → CodableEntries es →
    (∀ f ∈ fs, f.2.Codable) → eqEntries es fs = true →
    ∀ {items : List (Bytes × Bytes)}, bencodeEntries es = some items → ∀ e ∈ items,
      ∃ w, Dict.lookup (.bytes e.1) fs = some w ∧ bencode w = some e.2
  | [], fs, _, _, _, items, hitems, e, hmem => by
    cases hitems
    cases hmem
  | (k, v) :: es, fs, hes, hfs, he, items, hitems, e, hmem => by
    obtain ⟨⟨key, rfl, -⟩, hv, hrest⟩ := hes
    simp only [bencodeEntries, Option.bind_eq_some_iff, Option.map_eq_some_iff] at hitems
    obtain ⟨bs, hbs, rest, hrest', rfl⟩ := hitems
    simp only [eqEntries, Bool.and_eq_true] at he
    obtain ⟨hhead, htail⟩ := he
    rcases List.mem_cons.mp hmem with rfl | hmem
    · cases hlookup : Dict.lookup (.bytes key) fs with
      | none =>
        rw [hlookup] at hhead
        cases hhead
      | some w =>
        rw [hlookup] at hhead
        refine ⟨w, rfl, ?_⟩
        rw [bencode_eq v w hv (hfs _ (Dict.mem_of_lookup hlookup)) hhead, hbs]
    · exact bencodeEntries_eq es fs hrest hfs htail hrest' e hmem

end

/-- **The round trip.** A value of printable integers, byte strings, lists and
dicts with byte strings for keys is encoded; whatever stands behind the encoding
it is read as an equal value, up to where it ends, once the recursion limit lets
its lists and dicts nest; and equal values, whatever the order of their dicts, have
one encoding. -/
theorem bencode_roundTrip (v : Value) (hv : v.Codable) :
    ∃ bs w, bencode v = some bs ∧ v.eq w = true ∧
      (∃ n, ∀ fuel depth, n ≤ fuel → v.depth ≤ depth →
        bdecode fuel depth bs = .done w ∧
          ∀ rest, decodeItem (bs ++ rest) fuel depth 0 = .done (w, bs.length)) ∧
      ∀ u : Value, u.Codable → v.eq u = true → bencode u = some bs := by
  obtain ⟨bs, w, hbs, -, ⟨n, hn⟩, heq⟩ := read_value v hv
  refine ⟨bs, w, hbs, heq, ⟨n, fun fuel depth hfuel hdepth => ?_⟩, fun u hu he => ?_⟩
  · have hread : ∀ rest, decodeItem (bs ++ rest) fuel depth 0 = .done (w, bs.length) := by
      intro rest
      have := hn [] rest fuel depth hfuel hdepth
      simpa using this
    refine ⟨?_, hread⟩
    have hwhole := hread []
    rw [List.append_nil] at hwhole
    rw [bdecode, hwhole]
    rfl
  · rw [bencode_eq v u hv hu he, hbs]

/-- A dict whose keys are not in order, one of its values with delimiters in it. -/
def unsorted : Value := .dict [(.bytes [98], .list [.int (-3)]), (.bytes [97], .bytes [58, 101])]

theorem bencode_roundTrip_unsorted :
    ∃ bs w, bencode unsorted = some bs ∧ unsorted.eq w = true ∧
      (∃ n, ∀ fuel depth, n ≤ fuel → unsorted.depth ≤ depth →
        bdecode fuel depth bs = .done w ∧
          ∀ rest, decodeItem (bs ++ rest) fuel depth 0 = .done (w, bs.length)) ∧
      ∀ u : Value, u.Codable → unsorted.eq u = true → bencode u = some bs := by
  have hdigit : (toString 3).length ≤ maxStrDigits := by decide
  have hlength : (toString 2).length ≤ maxStrDigits := by decide
  have hkey : (toString 1).length ≤ maxStrDigits := by decide
  exact bencode_roundTrip unsorted ⟨⟨⟨[98], rfl, hkey⟩, ⟨hdigit, trivial⟩,
    ⟨[97], rfl, hkey⟩, hlength, trivial⟩, by decide⟩

end Wormhole.L1.Bencode
