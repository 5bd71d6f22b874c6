import Wormhole.L4App.JsAdvertisement

/-!
# What the canonical form covers

`getCanonicalJSON` gives `JSON.stringify` a list of keys, which filters the
objects inside `services` and the other fields too; and a number that is
infinite, as `1e400` is, is printed as `null`.

* `canonical_iff`: two canonical forms are equal when what is printed of the
  fields is.
* `exists_alike`: a value with an object, a `null` or an infinite number in it is
  printed like another one.
* `canonical_covers_iff`: the canonical form covers the content exactly when every
  field is there and has none of these.
-/
namespace Wormhole.L4.WnsJs
open Wormhole.L1 Wormhole.L1.JsonText

/-! ## Infinite numbers -/

mutual

/-- An infinite number is printed as `null`. -/
def finite : Json → Json
  | .float .inf => .null
  | .float .negInf => .null
  | .arr xs => .arr (finiteItems xs)
  | .obj fields => .obj (finiteFields fields)
  | v => v

def finiteItems : List Json → List Json
  | [] => []
  | x :: xs => finite x :: finiteItems xs

def finiteFields : List (String × Json) → List (String × Json)
  | [] => []
  | (k, x) :: fields => (k, finite x) :: finiteFields fields

end

section Write

variable (text : PyFloat → Text)

mutual

theorem write_finite : ∀ (x : Json) (level : Nat),
    (jsWriter text).write level (finite x) = (jsWriter text).write level x
  | .float .inf, _ => rfl
  | .float .negInf, _ => rfl
  | .float .nan, _ => rfl
  | .float .negZero, _ => rfl
  | .float (.fin _), _ => rfl
  | .null, _ => rfl
  | .bool _, _ => rfl
  | .int _, _ => rfl
  | .str _, _ => rfl
  | .arr [], _ => rfl
  | .arr (x :: xs), level => by
    simp only [finite, finiteItems, Writer.write, write_finite x, writeItems_finite xs]
  | .obj [], _ => rfl
  | .obj ((k, x) :: fields), level => by
    simp only [finite, finiteFields, Writer.write, write_finite x, writeFields_finite fields]

theorem writeItems_finite : ∀ (xs : List Json) (level : Nat),
    (jsWriter text).writeItems level (finiteItems xs) = (jsWriter text).writeItems level xs
  | [], _ => rfl
  | x :: xs, level => by
    simp only [finiteItems, Writer.writeItems, write_finite x, writeItems_finite xs]

theorem writeFields_finite : ∀ (fields : List (String × Json)) (level : Nat),
    (jsWriter text).writeFields level (finiteFields fields) =
      (jsWriter text).writeFields level fields
  | [], _ => rfl
  | (k, x) :: fields, level => by
    simp only [finiteFields, Writer.writeFields, write_finite x, writeFields_finite fields]

end

theorem dumps_finite (x : Json) : (jsWriter text).dumps (finite x) = (jsWriter text).dumps x := by
  rw [Writer.dumps, write_finite]
  rfl

end Write

/-! ## What is printed of a value -/

/-- A number whose text is read back. -/
def FiniteNumber : Json → Prop
  | .int n => n.natAbs < 2 ^ 53
  | .float (.fin q) => IsDouble q ∧ isSafeInteger q = false
  | _ => False

theorem inverse (r : Runtime) : Inverse jsReader (jsWriter r.numberText) FiniteNumber where
  escape := jsEscape_reads
  number x hx := by
    cases x with
    | int n => exact jsReader_readsInt hx
    | float f =>
      cases f with
      | fin q => exact r.numberText_reads q hx.1 hx.2
      | _ => cases hx
    | _ => cases hx

/-- What is printed of a value, with a list of keys. -/
def printed (keys : List String) (v : Json) : Json := finite (withKeys keys v)

/-- The fields of an object in the order of the keys. -/
def collect (keys : List String) (f : String → Option Json) : List (String × Json) :=
  keys.filterMap fun k => (f k).map fun v => (k, v)

theorem lookup_withKeysFields (keys : List String) (k : String) (fields : List (String × Json)) :
    Dict.lookup k (withKeysFields keys fields) = (Dict.lookup k fields).map (withKeys keys) := by
  induction fields with
  | nil => rfl
  | cons f fields ih =>
    obtain ⟨j, v⟩ := f
    simp only [withKeysFields, Dict.lookup]
    split
    · rfl
    · exact ih

theorem collect_cons_none {f : String → Option Json} {k : String} (h : f k = none)
    (keys : List String) : collect (k :: keys) f = collect keys f := by
  simp [collect, h]

theorem collect_cons_some {f : String → Option Json} {k : String} {v : Json} (h : f k = some v)
    (keys : List String) : collect (k :: keys) f = (k, v) :: collect keys f := by
  simp [collect, h]

theorem finiteFields_collect (keys : List String) (f : String → Option Json) :
    finiteFields (collect keys f) = collect keys fun k => (f k).map finite := by
  induction keys with
  | nil => rfl
  | cons k keys ih =>
    cases h : f k with
    | none => rw [collect_cons_none h, collect_cons_none (by rw [h]; rfl), ih]
    | some v =>
      rw [collect_cons_some h, collect_cons_some (v := finite v) (by rw [h]; rfl), finiteFields,
        ih]

/-- Of an object, the values under the keys. -/
theorem printed_obj (keys : List String) (fields : List (String × Json)) :
    printed keys (.obj fields) =
      .obj (collect keys fun k => (Dict.lookup k fields).map (printed keys)) := by
  have hselect : select keys (withKeysFields keys fields) =
      collect keys fun k => (Dict.lookup k fields).map (withKeys keys) := by
    simp only [select, collect, lookup_withKeysFields]
  rw [printed, withKeys, finite, hselect, finiteFields_collect]
  simp only [Option.map_map]
  rfl

theorem finiteItems_withKeysItems (keys : List String) (xs : List Json) :
    finiteItems (withKeysItems keys xs) = xs.map (printed keys) := by
  induction xs with
  | nil => rfl
  | cons x xs ih => rw [withKeysItems, finiteItems, ih, List.map_cons, printed]

theorem printed_arr (keys : List String) (xs : List Json) :
    printed keys (.arr xs) = .arr (xs.map (printed keys)) := by
  rw [printed, withKeys, finite, finiteItems_withKeysItems]

theorem collect_congr {keys : List String} {f g : String → Option Json}
    (h : ∀ k ∈ keys, f k = g k) : collect keys f = collect keys g :=
  List.filterMap_congr fun k hk => by rw [h k hk]

theorem map_fst_collect (keys : List String) (f : String → Option Json) :
    (collect keys f).map Prod.fst = keys.filter fun k => (f k).isSome := by
  induction keys with
  | nil => rfl
  | cons k keys ih =>
    rw [List.filter_cons]
    cases hk : f k with
    | none =>
      rw [collect_cons_none hk, ih]
      rfl
    | some v =>
      rw [collect_cons_some hk, List.map_cons, ih]
      rfl

theorem nodup_collect {keys : List String} (h : keys.Nodup) (f : String → Option Json) :
    ((collect keys f).map Prod.fst).Nodup := by
  rw [map_fst_collect]
  exact h.filter _

theorem plainFields_collect {P : Json → Prop} {f : String → Option Json}
    (h : ∀ k v, f k = some v → Plain P v) (keys : List String) :
    PlainFields P (collect keys f) := by
  induction keys with
  | nil => trivial
  | cons k keys ih =>
    cases hk : f k with
    | none =>
      rw [collect_cons_none hk]
      exact ih
    | some v =>
      rw [collect_cons_some hk]
      exact ⟨h k v hk, ih⟩

mutual

/-- What is printed can be read back. -/
theorem plain_printed {keys : List String} (hk : keys.Nodup) :
    ∀ {v : Json}, JsValue v → Plain FiniteNumber (printed keys v)
  | .null, _ => trivial
  | .bool _, _ => trivial
  | .str _, _ => trivial
  | .int _, h => h
  | .float (.fin _), h => h
  | .float .inf, _ => trivial
  | .float .negInf, _ => trivial
  | .arr _, h => by
    rw [printed_arr]
    exact plainItems_printed hk h
  | .obj _, h => by
    rw [printed_obj]
    refine ⟨nodup_collect hk _, plainFields_collect (fun k v hv => ?_) keys⟩
    exact plain_printed_lookup hk h.2 hv

theorem plainItems_printed {keys : List String} (hk : keys.Nodup) :
    ∀ {xs : List Json}, PlainItems JsNumber xs → PlainItems FiniteNumber (xs.map (printed keys))
  | [], _ => trivial
  | _ :: _, h => ⟨plain_printed hk h.1, plainItems_printed hk h.2⟩

theorem plain_printed_lookup {keys : List String} (hk : keys.Nodup) {k : String} {v : Json} :
    ∀ {fields : List (String × Json)}, PlainFields JsNumber fields →
      (Dict.lookup k fields).map (printed keys) = some v → Plain FiniteNumber v
  | (j, w) :: fields, h, hv => by
    unfold Dict.lookup at hv
    split at hv
    · cases hv
      exact plain_printed hk h.1
    · exact plain_printed_lookup hk h.2 hv

end

/-! ## Rigid values -/

mutual

/-- Without an object, a `null` or an infinite number in it. -/
def Rigid : Json → Prop
  | .null => False
  | .obj _ => False
  | .float f => f ≠ .inf ∧ f ≠ .negInf
  | .arr xs => RigidItems xs
  | .bool _ => True
  | .int _ => True
  | .str _ => True

def RigidItems : List Json → Prop
  | [] => True
  | x :: xs => Rigid x ∧ RigidItems xs

end

mutual

theorem printed_rigid (keys : List String) : ∀ {v : Json}, Rigid v → printed keys v = v
  | .bool _, _ => rfl
  | .int _, _ => rfl
  | .str _, _ => rfl
  | .float (.fin _), _ => rfl
  | .float .negZero, _ => rfl
  | .float .nan, _ => rfl
  | .float .inf, h => absurd rfl h.1
  | .float .negInf, h => absurd rfl h.2
  | .arr _, h => by rw [printed_arr, printedItems_rigid keys h]

theorem printedItems_rigid (keys : List String) :
    ∀ {xs : List Json}, RigidItems xs → xs.map (printed keys) = xs
  | [], _ => rfl
  | _ :: _, h => by rw [List.map_cons, printed_rigid keys h.1, printedItems_rigid keys h.2]

end

mutual

/-- Nothing else is printed as a rigid value. -/
theorem rigid_printed (keys : List String) :
    ∀ {v : Json}, Rigid (printed keys v) → printed keys v = v
  | .bool _, _ => rfl
  | .int _, _ => rfl
  | .str _, _ => rfl
  | .float (.fin _), _ => rfl
  | .float .negZero, _ => rfl
  | .float .nan, _ => rfl
  | .arr _, h => by
    rw [printed_arr] at h ⊢
    rw [rigidItems_printed keys h]
  | .obj _, h => by
    rw [printed_obj] at h
    cases h

theorem rigidItems_printed (keys : List String) :
    ∀ {xs : List Json}, RigidItems (xs.map (printed keys)) → xs.map (printed keys) = xs
  | [], _ => rfl
  | _ :: _, h => by rw [List.map_cons, rigid_printed keys h.1, rigidItems_printed keys h.2]

end

theorem eq_of_printed_rigid {keys : List String} {v w : Json} (h : Rigid v)
    (hp : printed keys w = printed keys v) : w = v := by
  rw [printed_rigid keys h] at hp
  rw [← hp] at h
  rw [← hp, rigid_printed keys h]

/-! ## Values that are printed alike -/

/-- Another value that is printed the same, with any list of keys without the
empty one. -/
structure Twin (v w : Json) : Prop where
  ne : w ≠ v
  value : JsValue w
  truthy : WnsJs.truthy v = true → WnsJs.truthy w = true
  printed : ∀ keys, "" ∉ keys → WnsJs.printed keys w = WnsJs.printed keys v

/-- An object with or without the empty key. -/
theorem twin_obj {fields : List (String × Json)} (h : JsValue (.obj fields)) :
    ∃ w, Twin (.obj fields) w := by
  have hplain : ∀ {fields : List (String × Json)}, PlainFields JsNumber fields →
      PlainFields JsNumber (Dict.remove "" fields) := by
    intro fields
    induction fields with
    | nil => exact fun _ => trivial
    | cons f fields ih =>
      intro hf
      rw [Dict.remove, List.filter_cons]
      split
      · exact ⟨hf.1, ih hf.2⟩
      · exact ih hf.2
  have hprinted : ∀ {fields' : List (String × Json)},
      (∀ k, k ≠ "" → Dict.lookup k fields' = Dict.lookup k fields) →
      ∀ keys, "" ∉ keys → printed keys (.obj fields') = printed keys (.obj fields) := by
    intro fields' hl keys hk
    rw [printed_obj, printed_obj, collect, collect]
    congr 1
    refine List.filterMap_congr fun k hmem => ?_
    rw [hl k fun e => hk (e ▸ hmem)]
  cases hempty : Dict.lookup "" fields with
  | none =>
    have hnot : "" ∉ fields.map Prod.fst := by
      intro hmem
      have := (Dict.lookup_isSome_iff "" fields).mpr hmem
      rw [hempty] at this
      cases this
    refine ⟨.obj (("", .null) :: fields), ?_, ⟨List.nodup_cons.mpr ⟨hnot, h.1⟩, trivial, h.2⟩,
      id, hprinted fun k hk => ?_⟩
    · intro heq
      have := congrArg List.length (Json.obj.inj heq)
      simp at this
    · rw [Dict.lookup, if_neg (Ne.symm hk)]
  | some v =>
    refine ⟨.obj (Dict.remove "" fields), ?_, ⟨?_, hplain h.2⟩, id, hprinted fun k hk => ?_⟩
    · intro heq
      have := Dict.lookup_remove "" "" fields
      rw [Json.obj.inj heq, hempty, if_pos rfl] at this
      cases this
    · exact h.1.sublist (List.filter_sublist.map _)
    · rw [Dict.lookup_remove, if_neg (Ne.symm hk)]

mutual

theorem exists_twin : ∀ {v : Json}, JsValue v → ¬ Rigid v → ∃ w, Twin v w
  | .null, _, _ => by
    refine ⟨.float .inf, ?_, trivial, fun h => ?_, fun keys _ => rfl⟩
    · intro h
      cases h
    · cases h
  | .bool _, _, h => absurd trivial h
  | .int _, _, h => absurd trivial h
  | .str _, _, h => absurd trivial h
  | .float (.fin _), _, h => by
    refine absurd ⟨?_, ?_⟩ h
    · intro e
      cases e
    · intro e
      cases e
  | .float .inf, _, _ => by
    refine ⟨.float .negInf, ?_, trivial, id, fun keys _ => rfl⟩
    intro h
    cases h
  | .float .negInf, _, _ => by
    refine ⟨.float .inf, ?_, trivial, id, fun keys _ => rfl⟩
    intro h
    cases h
  | .obj _, hv, _ => twin_obj hv
  | .arr xs, hv, h => by
    obtain ⟨ys, hne, hys, hp⟩ := exists_twins hv h
    refine ⟨.arr ys, fun e => hne (Json.arr.inj e), hys, fun _ => rfl, fun keys hk => ?_⟩
    rw [printed_arr, printed_arr, hp keys hk]

theorem exists_twins : ∀ {xs : List Json}, PlainItems JsNumber xs → ¬ RigidItems xs →
    ∃ ys, ys ≠ xs ∧ PlainItems JsNumber ys ∧
      ∀ keys, "" ∉ keys → ys.map (printed keys) = xs.map (printed keys)
  | [], _, h => absurd trivial h
  | x :: xs, hv, h => by
    by_cases hx : Rigid x
    · obtain ⟨ys, hne, hys, hp⟩ := exists_twins hv.2 fun hxs => h ⟨hx, hxs⟩
      refine ⟨x :: ys, fun e => hne (List.cons.inj e).2, ⟨hv.1, hys⟩, fun keys hk => ?_⟩
      rw [List.map_cons, List.map_cons, hp keys hk]
    · obtain ⟨y, hy⟩ := exists_twin hv.1 hx
      refine ⟨y :: xs, fun e => hy.ne (List.cons.inj e).1, ⟨hy.value, hv.2⟩, fun keys hk => ?_⟩
      rw [List.map_cons, List.map_cons, hy.printed keys hk]

end

/-! ## The fields of an advertisement -/

def names : List String :=
  ["address", "code", "expires", "public_key", "scoped_name", "services", "timestamp", "version"]

/-- The keys that are printed. -/
def Advertisement.keys (ad : Advertisement) : List String := (present ad.entries).map Prod.fst

/-- What is printed under a key. -/
def Advertisement.value (ad : Advertisement) (k : String) : Option Json :=
  (Dict.lookup k ad.entries).bind nonNull

theorem present_eq (ad : Advertisement) : present ad.entries = collect names ad.value := by
  have hnames : ad.entries.map Prod.fst = names := rfl
  have hnodup : names.Nodup := by decide
  rw [collect, ← hnames, List.filterMap_map, present]
  refine List.filterMap_congr fun e he => ?_
  rw [← hnames] at hnodup
  simp only [Function.comp_apply, Advertisement.value, Dict.lookup_of_mem hnodup he,
    Option.bind_some]

theorem lookup_collect (k : String) (keys : List String) (f : String → Option Json) :
    Dict.lookup k (collect keys f) = if k ∈ keys then f k else none := by
  induction keys with
  | nil => rfl
  | cons j keys ih =>
    cases hj : f j with
    | none =>
      rw [collect_cons_none hj, ih]
      by_cases hkj : k = j
      · subst hkj
        simp [hj]
      · simp [hkj]
    | some v =>
      rw [collect_cons_some hj, Dict.lookup, ih]
      by_cases hkj : j = k
      · subst hkj
        simp [hj]
      · simp [hkj, Ne.symm hkj]

/-- Keys without a value print nothing. -/
theorem collect_keys (js : List String) (f : String → Option Json) (g : Json → Json) :
    collect ((collect js f).map Prod.fst) (fun k => (f k).map g) =
      collect js fun k => (f k).map g := by
  induction js with
  | nil => rfl
  | cons j js ih =>
    cases hj : f j with
    | none => rw [collect_cons_none hj, ih, collect_cons_none (by rw [hj]; rfl)]
    | some v =>
      rw [collect_cons_some hj, List.map_cons, collect_cons_some (v := g v) (by rw [hj]; rfl), ih,
        collect_cons_some (v := g v) (by rw [hj]; rfl)]

theorem collect_inj {js : List String} {f g : String → Option Json}
    (h : collect js f = collect js g) {k : String} (hk : k ∈ js) : f k = g k := by
  have hl := congrArg (Dict.lookup k) h
  rwa [lookup_collect, lookup_collect, if_pos hk, if_pos hk] at hl

theorem keys_eq (ad : Advertisement) : ad.keys = names.filter fun k => (ad.value k).isSome := by
  rw [Advertisement.keys, present_eq, map_fst_collect]

theorem keys_nodup (ad : Advertisement) : ad.keys.Nodup := by
  rw [keys_eq]
  exact (by decide : names.Nodup).filter _

theorem empty_notMem_keys (ad : Advertisement) : "" ∉ ad.keys := by
  rw [keys_eq]
  intro h
  have hnames : "" ∉ names := by decide
  exact hnames (List.mem_filter.mp h).1

/-- The object that `JSON.stringify` is given, as it is printed. -/
theorem printed_entries (ad : Advertisement) :
    printed ad.keys (.obj (present ad.entries)) =
      .obj (collect names fun k => (ad.value k).map (printed ad.keys)) := by
  have hkeys : ad.keys = (collect names ad.value).map Prod.fst := by
    rw [Advertisement.keys, present_eq]
  have hlookup : ∀ k ∈ ad.keys, (Dict.lookup k (present ad.entries)).map (printed ad.keys) =
      (ad.value k).map (printed ad.keys) := by
    intro k hk
    rw [keys_eq] at hk
    rw [present_eq, lookup_collect, if_pos (List.mem_filter.mp hk).1]
  have hcollect := collect_keys names ad.value (printed ad.keys)
  rw [← hkeys] at hcollect
  rw [printed_obj, collect_congr hlookup, hcollect]

/-! ## Equal canonical forms -/

def JsOption : Option Json → Prop
  | none => True
  | some v => JsValue v

/-- The fields are values of JavaScript. -/
structure Advertisement.JsFields (ad : Advertisement) : Prop where
  version : JsValue ad.version
  address : JsOption ad.address
  publicKey : JsOption ad.publicKey
  code : JsOption ad.code
  timestamp : JsOption ad.timestamp
  expires : JsOption ad.expires
  scopedName : JsValue ad.scopedName
  services : JsValue ad.services
  signature : JsValue ad.signature

theorem jsOption_nonNull {a : Option Json} {v : Json} (h : JsOption a) (hv : nonNull a = some v) :
    a = some v ∧ JsValue v := by
  unfold nonNull at hv
  split at hv
  · cases hv
  · subst hv
    exact ⟨rfl, h⟩

theorem Advertisement.JsFields.value {ad : Advertisement} (h : ad.JsFields) {k : String} {v : Json}
    (hv : ad.value k = some v) : JsValue v := by
  obtain ⟨a, ha, hv⟩ := Option.bind_eq_some_iff.mp hv
  refine (jsOption_nonNull ?_ hv).2
  have hmem := Dict.mem_of_lookup ha
  simp only [Advertisement.entries, List.mem_cons, Prod.mk.injEq, List.not_mem_nil,
    or_false] at hmem
  rcases hmem with ⟨-, rfl⟩ | ⟨-, rfl⟩ | ⟨-, rfl⟩ | ⟨-, rfl⟩ | ⟨-, rfl⟩ | ⟨-, rfl⟩ | ⟨-, rfl⟩ |
    ⟨-, rfl⟩
  · exact h.address
  · exact h.code
  · exact h.expires
  · exact h.publicKey
  · exact h.scopedName
  · exact h.services
  · exact h.timestamp
  · exact h.version

theorem loads_canonical (r : Runtime) {ad : Advertisement} (h : ad.JsFields) :
    jsReader.loads (ad.getCanonicalJSON r) =
      some (.obj (collect names fun k => (ad.value k).map (printed ad.keys))) := by
  have hvalue : JsValue (.obj (present ad.entries)) := by
    rw [present_eq]
    exact ⟨nodup_collect (by decide) _, plainFields_collect (fun k v hv => h.value hv) names⟩
  have hplain := plain_printed (keys_nodup ad) hvalue
  rw [← printed_entries]
  rw [Advertisement.getCanonicalJSON, ← dumps_finite]
  exact loads_dumps (inverse r) hplain

/-- Canonical forms are equal when what is printed of each field is. -/
theorem canonical_iff (r : Runtime) {A B : Advertisement} (hA : A.JsFields) (hB : B.JsFields) :
    B.getCanonicalJSON r = A.getCanonicalJSON r ↔
      ∀ k ∈ names, (B.value k).map (printed A.keys) = (A.value k).map (printed A.keys) := by
  constructor
  · intro h
    have hloads := loads_canonical r hB
    rw [h, loads_canonical r hA] at hloads
    have hcollect := Json.obj.inj (Option.some.inj hloads)
    have hkeys : A.keys = B.keys := by
      rw [keys_eq, keys_eq]
      refine List.filter_congr fun k hk => ?_
      have := congrArg Option.isSome (collect_inj hcollect hk)
      rwa [Option.isSome_map, Option.isSome_map] at this
    intro k hk
    have := collect_inj hcollect hk
    rw [← hkeys] at this
    exact this.symm
  · intro h
    have hkeys : B.keys = A.keys := by
      rw [keys_eq, keys_eq]
      refine List.filter_congr fun k hk => ?_
      have := congrArg Option.isSome (h k hk)
      rwa [Option.isSome_map, Option.isSome_map] at this
    have hprinted : printed B.keys (.obj (present B.entries)) =
        printed A.keys (.obj (present A.entries)) := by
      rw [printed_entries, printed_entries, hkeys, collect_congr h]
    rw [Advertisement.getCanonicalJSON, Advertisement.getCanonicalJSON, ← dumps_finite,
      ← dumps_finite r.numberText (withKeys _ (.obj (present A.entries)))]
    exact congrArg (jsWriter r.numberText).dumps hprinted

/-! ## What is received -/

theorem jsOption_prop {data : Json} (h : JsValue data) (name : String) :
    JsOption (prop data name) := by
  have hlookup : ∀ {fields : List (String × Json)}, PlainFields JsNumber fields →
      JsOption (Dict.lookup name fields) := by
    intro fields
    induction fields with
    | nil => exact fun _ => trivial
    | cons f fields ih =>
      intro hf
      unfold Dict.lookup
      split
      · exact hf.1
      · exact ih hf.2
  cases data with
  | obj fields => exact hlookup h.2
  | _ => trivial

theorem jsOption_orElse {a b : Option Json} (ha : JsOption a) (hb : JsOption b) :
    JsOption (orElse a b) := by
  unfold orElse
  split
  · split
    · exact ha
    · exact hb
  · exact hb

theorem jsValue_orValue {a : Option Json} {b : Json} (ha : JsOption a) (hb : JsValue b) :
    JsValue (orValue a b) := by
  have h : JsOption (orElse a (some b)) := jsOption_orElse ha hb
  unfold orValue
  cases he : orElse a (some b) with
  | none => exact hb
  | some v =>
    rw [he] at h
    exact h

theorem ofData_jsFields {data : Json} {ad : Advertisement} (h : JsValue data)
    (had : Advertisement.ofData data = some ad) : ad.JsFields := by
  unfold Advertisement.ofData at had
  split at had
  · cases had
  · cases had
    exact ⟨jsValue_orValue (jsOption_prop h _) (by decide : (1 : Int).natAbs < 2 ^ 53),
      jsOption_prop h _, jsOption_orElse (jsOption_prop h _) (jsOption_prop h _),
      jsOption_prop h _, jsOption_prop h _, jsOption_prop h _,
      jsValue_orValue (jsOption_orElse (jsOption_prop h _) (jsOption_prop h _)) trivial,
      jsValue_orValue (jsOption_prop h _) trivial, jsValue_orValue (jsOption_prop h _) trivial⟩

/-- An advertisement that `fromJSON` has built from a value of JavaScript, or from
a text. -/
structure Received where
  data : Json
  ad : Advertisement
  value : JsValue data
  built : Advertisement.fromJSON data = some ad

theorem Received.fields (R : Received) : R.ad.JsFields := by
  obtain ⟨data, ad, hvalue, hbuilt⟩ := R
  cases data with
  | str text =>
    obtain ⟨v, hv, had⟩ := Option.bind_eq_some_iff.mp hbuilt
    exact ofData_jsFields (jsReader_plain hv) had
  | _ => exact ofData_jsFields hvalue hbuilt

/-- An object with these fields. -/
def Advertisement.fieldValue (ad : Advertisement) (k : String) : Option Json :=
  if k = "version" then some ad.version
  else if k = "address" then ad.address
  else if k = "public_key" then ad.publicKey
  else if k = "code" then ad.code
  else if k = "timestamp" then ad.timestamp
  else if k = "expires" then ad.expires
  else if k = "scopedName" then some ad.scopedName
  else if k = "services" then some ad.services
  else if k = "signature" then some ad.signature
  else none

def fieldNames : List String :=
  ["version", "address", "public_key", "code", "timestamp", "expires", "scopedName", "services",
    "signature"]

def Advertisement.toData (ad : Advertisement) : Json := .obj (collect fieldNames ad.fieldValue)

theorem orElse_truthy {v : Json} (h : truthy v = true) (b : Option Json) :
    orElse (some v) b = some v := by
  rw [orElse, if_pos h]

theorem orValue_of {v b : Json} (h : v = b ∨ truthy v = true) : orValue (some v) b = v := by
  rcases h with rfl | h
  · rw [orValue, orElse, ite_self]
    rfl
  · rw [orValue, orElse_truthy h]
    rfl

theorem ofData_toData (ad : Advertisement) : Advertisement.ofData ad.toData = some ad := by
  have hprop : ∀ k, prop ad.toData k = if k ∈ fieldNames then ad.fieldValue k else none :=
    fun k => lookup_collect k fieldNames ad.fieldValue
  have hscoped : orValue (orElse (some ad.scopedName) none) .null = ad.scopedName := by
    rcases ad.scopedName_or with h | h
    · rw [h]
      rfl
    · rw [orElse_truthy h]
      exact orValue_of (.inr h)
  have hversion := orValue_of (b := .int 1) (.inr ad.version_truthy)
  have hservices := orValue_of (b := .arr []) (.inr ad.services_truthy)
  have hsignature := orValue_of ad.signature_or
  have hdata : Advertisement.ofData ad.toData = some {
      version := orValue (prop ad.toData "version") (.int 1)
      address := prop ad.toData "address"
      publicKey := orElse (prop ad.toData "publicKey") (prop ad.toData "public_key")
      code := prop ad.toData "code"
      timestamp := prop ad.toData "timestamp"
      expires := prop ad.toData "expires"
      scopedName :=
        orValue (orElse (prop ad.toData "scopedName") (prop ad.toData "scoped_name")) .null
      services := orValue (prop ad.toData "services") (.arr [])
      signature := orValue (prop ad.toData "signature") .null
      version_truthy := orValue_truthy _ rfl
      scopedName_or := orValue_or _ _
      services_truthy := orValue_truthy _ rfl
      signature_or := orValue_or _ _ } := rfl
  rw [hdata]
  have hnone : orElse none ad.publicKey = ad.publicKey := rfl
  simp [hprop, fieldNames, Advertisement.fieldValue, hscoped, hversion, hservices, hsignature,
    hnone]

theorem jsOption_ite {p : Prop} [Decidable p] {a b : Option Json} (ha : JsOption a)
    (hb : JsOption b) : JsOption (if p then a else b) := by
  by_cases hp : p
  · rwa [if_pos hp]
  · rwa [if_neg hp]

theorem toData_value {ad : Advertisement} (h : ad.JsFields) : JsValue ad.toData := by
  refine ⟨nodup_collect (by decide) _, plainFields_collect (fun k v hv => ?_) fieldNames⟩
  have hfield : JsOption (ad.fieldValue k) := by
    unfold Advertisement.fieldValue
    apply jsOption_ite
    · exact h.version
    apply jsOption_ite
    · exact h.address
    apply jsOption_ite
    · exact h.publicKey
    apply jsOption_ite
    · exact h.code
    apply jsOption_ite
    · exact h.timestamp
    apply jsOption_ite
    · exact h.expires
    apply jsOption_ite
    · exact h.scopedName
    apply jsOption_ite
    · exact h.services
    apply jsOption_ite
    · exact h.signature
    trivial
  rw [hv] at hfield
  exact hfield

theorem exists_received {ad : Advertisement} (h : ad.JsFields) : ∃ R : Received, R.ad = ad :=
  ⟨⟨ad.toData, ad, toData_value h, ofData_toData ad⟩, rfl⟩

/-! ## Covering -/

/-- The same content under the signature. -/
structure Advertisement.SameContent (A B : Advertisement) : Prop where
  address : B.address = A.address
  code : B.code = A.code
  timestamp : B.timestamp = A.timestamp
  expires : B.expires = A.expires
  scopedName : B.scopedName = A.scopedName
  services : B.services = A.services
  version : B.version = A.version

/-- There, and rigid. -/
def RigidField (a : Option Json) : Prop := ∃ v, a = some v ∧ Rigid v

/-- Every field but the scoped name is there, and all of them are rigid. -/
structure Advertisement.Covered (ad : Advertisement) : Prop where
  address : RigidField ad.address
  code : RigidField ad.code
  timestamp : RigidField ad.timestamp
  expires : RigidField ad.expires
  scopedName : ad.scopedName = .null ∨ Rigid ad.scopedName
  services : Rigid ad.services
  version : Rigid ad.version

theorem nonNull_of_ne {v : Json} (h : v ≠ .null) : nonNull (some v) = some v := by
  cases v with
  | null => exact absurd rfl h
  | _ => rfl

theorem rigid_ne_null {v : Json} (h : Rigid v) : v ≠ .null := by
  rintro rfl
  exact h

theorem eq_of_rigidField {keys : List String} {a b : Option Json} (ha : RigidField a)
    (h : (nonNull b).map (printed keys) = (nonNull a).map (printed keys)) : b = a := by
  obtain ⟨v, rfl, hv⟩ := ha
  rw [nonNull_of_ne (rigid_ne_null hv), Option.map_some] at h
  obtain ⟨w, hw, hp⟩ := Option.map_eq_some_iff.mp h
  rw [eq_of_printed_rigid hv hp] at hw
  unfold nonNull at hw
  split at hw
  · cases hw
  · exact hw

theorem eq_of_rigid {keys : List String} {v w : Json} (hv : Rigid v)
    (h : (nonNull (some w)).map (printed keys) = (nonNull (some v)).map (printed keys)) : w = v :=
  Option.some.inj (eq_of_rigidField ⟨v, rfl, hv⟩ h)

theorem eq_null {keys : List String} {w : Json}
    (h : (nonNull (some w)).map (printed keys) = none) : w = .null := by
  by_contra hw
  rw [nonNull_of_ne hw] at h
  cases h

/-- The content of a covered advertisement is read off its canonical form. -/
theorem Advertisement.Covered.sameContent {r : Runtime} {A B : Advertisement} (h : A.Covered)
    (hA : A.JsFields) (hB : B.JsFields)
    (hc : B.getCanonicalJSON r = A.getCanonicalJSON r) : A.SameContent B := by
  have hfield := (canonical_iff r hA hB).mp hc
  refine ⟨eq_of_rigidField h.address (hfield "address" (by decide)),
    eq_of_rigidField h.code (hfield "code" (by decide)),
    eq_of_rigidField h.timestamp (hfield "timestamp" (by decide)),
    eq_of_rigidField h.expires (hfield "expires" (by decide)), ?_,
    eq_of_rigid h.services (hfield "services" (by decide)),
    eq_of_rigid h.version (hfield "version" (by decide))⟩
  have hscoped : (nonNull (some B.scopedName)).map (printed A.keys) =
      (nonNull (some A.scopedName)).map (printed A.keys) := hfield "scoped_name" (by decide)
  rcases h.scopedName with hnull | hr
  · rw [hnull] at hscoped ⊢
    exact eq_null hscoped
  · exact eq_of_rigid hr hscoped

/-- Fields that are printed alike. -/
def Alike (a b : Option Json) : Prop :=
  ∀ keys, "" ∉ keys → (nonNull b).map (printed keys) = (nonNull a).map (printed keys)

theorem Alike.refl (a : Option Json) : Alike a a := fun _ _ => rfl

theorem alike_of_twin {v w : Json} (h : Twin v w) (ht : truthy v = true) :
    Alike (some v) (some w) := by
  have hne : ∀ {x : Json}, truthy x = true → x ≠ .null := by
    rintro x hx rfl
    cases hx
  intro keys hk
  rw [nonNull_of_ne (hne ht), nonNull_of_ne (hne (h.truthy ht)), Option.map_some, Option.map_some,
    h.printed keys hk]

theorem truthy_of_not_rigid {v : Json} (hv : JsValue v) (h : ¬ Rigid v) (hne : v ≠ .null) :
    truthy v = true := by
  cases v with
  | null => exact absurd rfl hne
  | bool b => exact absurd trivial h
  | int n => exact absurd trivial h
  | str s => exact absurd trivial h
  | arr xs => rfl
  | obj fields => rfl
  | float f =>
    cases f with
    | inf => rfl
    | negInf => rfl
    | fin q => exact absurd ⟨by simp, by simp⟩ h
    | _ => cases hv

/-- A field that is not there can be `null`, and the other way round. -/
theorem exists_alike {a : Option Json} (ha : JsOption a) (h : ¬ RigidField a) :
    ∃ b, b ≠ a ∧ JsOption b ∧ Alike a b := by
  cases a with
  | none => exact ⟨some .null, by simp, trivial, fun _ _ => rfl⟩
  | some v =>
    by_cases hnull : v = .null
    · subst hnull
      exact ⟨none, by simp, trivial, fun _ _ => rfl⟩
    · have hr : ¬ Rigid v := fun hr => h ⟨v, rfl, hr⟩
      obtain ⟨w, hw⟩ := exists_twin ha hr
      exact ⟨some w, by simpa using hw.ne, hw.value,
        alike_of_twin hw (truthy_of_not_rigid ha hr hnull)⟩

theorem canonical_of_alike (r : Runtime) {A B : Advertisement} (hA : A.JsFields)
    (hB : B.JsFields) (hpk : B.publicKey = A.publicKey) (ha : Alike A.address B.address)
    (hc : Alike A.code B.code) (ht : Alike A.timestamp B.timestamp)
    (he : Alike A.expires B.expires) (hn : Alike (some A.scopedName) (some B.scopedName))
    (hs : Alike (some A.services) (some B.services))
    (hv : Alike (some A.version) (some B.version)) :
    B.getCanonicalJSON r = A.getCanonicalJSON r := by
  have hempty := empty_notMem_keys A
  rw [canonical_iff r hA hB]
  intro k hk
  simp only [names, List.mem_cons, List.not_mem_nil, or_false] at hk
  rcases hk with rfl | rfl | rfl | rfl | rfl | rfl | rfl | rfl
  · exact ha _ hempty
  · exact hc _ hempty
  · exact he _ hempty
  · have hpk' : Alike A.publicKey B.publicKey := by
      rw [hpk]
      exact .refl _
    exact hpk' _ hempty
  · exact hn _ hempty
  · exact hs _ hempty
  · exact ht _ hempty
  · exact hv _ hempty

/-- Where every alike field is the same, the fields are rigid. -/
theorem covered_of_alike {A : Advertisement} (hA : A.JsFields)
    (h : ∀ B : Advertisement, B.JsFields → B.publicKey = A.publicKey →
      Alike A.address B.address → Alike A.code B.code → Alike A.timestamp B.timestamp →
      Alike A.expires B.expires → Alike (some A.scopedName) (some B.scopedName) →
      Alike (some A.services) (some B.services) → Alike (some A.version) (some B.version) →
      A.SameContent B) : A.Covered := by
  constructor
  · by_contra hr
    obtain ⟨b, hne, hb, hlike⟩ := exists_alike hA.address hr
    exact hne (h { A with address := b } { hA with address := hb } rfl hlike (.refl _) (.refl _)
      (.refl _) (.refl _) (.refl _) (.refl _)).address
  · by_contra hr
    obtain ⟨b, hne, hb, hlike⟩ := exists_alike hA.code hr
    exact hne (h { A with code := b } { hA with code := hb } rfl (.refl _) hlike (.refl _)
      (.refl _) (.refl _) (.refl _) (.refl _)).code
  · by_contra hr
    obtain ⟨b, hne, hb, hlike⟩ := exists_alike hA.timestamp hr
    exact hne (h { A with timestamp := b } { hA with timestamp := hb } rfl (.refl _) (.refl _)
      hlike (.refl _) (.refl _) (.refl _) (.refl _)).timestamp
  · by_contra hr
    obtain ⟨b, hne, hb, hlike⟩ := exists_alike hA.expires hr
    exact hne (h { A with expires := b } { hA with expires := hb } rfl (.refl _) (.refl _)
      (.refl _) hlike (.refl _) (.refl _) (.refl _)).expires
  · rcases A.scopedName_or with hnull | ht
    · exact .inl hnull
    · refine .inr ?_
      by_contra hr
      obtain ⟨w, hw⟩ := exists_twin hA.scopedName hr
      exact hw.ne (h { A with scopedName := w, scopedName_or := .inr (hw.truthy ht) }
        { hA with scopedName := hw.value } rfl (.refl _) (.refl _) (.refl _) (.refl _)
        (alike_of_twin hw ht) (.refl _) (.refl _)).scopedName
  · by_contra hr
    obtain ⟨w, hw⟩ := exists_twin hA.services hr
    exact hw.ne (h { A with services := w, services_truthy := hw.truthy A.services_truthy }
      { hA with services := hw.value } rfl (.refl _) (.refl _) (.refl _) (.refl _) (.refl _)
      (alike_of_twin hw A.services_truthy) (.refl _)).services
  · by_contra hr
    obtain ⟨w, hw⟩ := exists_twin hA.version hr
    exact hw.ne (h { A with version := w, version_truthy := hw.truthy A.version_truthy }
      { hA with version := hw.value } rfl (.refl _) (.refl _) (.refl _) (.refl _) (.refl _)
      (.refl _) (alike_of_twin hw A.version_truthy)).version

/-- **Headline.** The canonical form of an advertisement covers its content exactly
when its address, code, timestamp and expiry are there and no field has an object,
a `null` or an infinite number in it. -/
theorem canonical_covers_iff (r : Runtime) (A : Received) :
    (∀ B : Received, B.ad.publicKey = A.ad.publicKey →
      B.ad.getCanonicalJSON r = A.ad.getCanonicalJSON r → A.ad.SameContent B.ad) ↔
      A.ad.Covered := by
  constructor
  · intro h
    refine covered_of_alike A.fields fun B hB hpk ha hc ht he hn hs hv => ?_
    have hcanonical := canonical_of_alike r A.fields hB hpk ha hc ht he hn hs hv
    obtain ⟨R, rfl⟩ := exists_received hB
    exact h R hpk hcanonical
  · intro h B _ hc
    exact h.sameContent A.fields B.fields hc

/-! ## A port that is not covered -/

def portData (port : Int) : Json := .obj [("version", .int 1),
  ("address", .str "aeaaaaaaaaaaaaaaaaaaaaaaaa"),
  ("public_key", .str "AQAAAAAAAAAAAAAAAAAAAAAAAAAAAAAAAAAAAAAAAAA="),
  ("code", .str "7-guitar-sunset"), ("timestamp", .str "2029-01-01T00:00:00.000Z"),
  ("expires", .str "2030-01-01T00:00:00.000Z"), ("services", .arr [.obj [("port", .int port)]])]

theorem portData_value {port : Int} (h : port.natAbs < 2 ^ 53) : JsValue (portData port) := by
  have hone : (1 : Int).natAbs < 2 ^ 53 := by decide
  refine ⟨by simp, hone, trivial, trivial, trivial, trivial, trivial, ⟨⟨?_, trivial⟩, trivial⟩⟩
  exact ⟨by simp, h, trivial⟩

def ssh : Received := ⟨portData 22, _, portData_value (by decide), rfl⟩

def telnet : Received := ⟨portData 23, _, portData_value (by decide), rfl⟩

/-- The services' ports are left out. -/
theorem port_not_covered : ¬ ∀ (r : Runtime) (A B : Received),
    B.ad.publicKey = A.ad.publicKey → B.ad.getCanonicalJSON r = A.ad.getCanonicalJSON r →
      A.ad.SameContent B.ad := by
  intro h
  have hkept : withKeys telnet.ad.keys (.obj (present telnet.ad.entries)) =
      withKeys ssh.ad.keys (.obj (present ssh.ad.entries)) := rfl
  have hcanonical : telnet.ad.getCanonicalJSON sampleRuntime =
      ssh.ad.getCanonicalJSON sampleRuntime :=
    congrArg (jsWriter sampleRuntime.numberText).dumps hkept
  cases (h sampleRuntime ssh telnet rfl hcanonical).services

end Wormhole.L4.WnsJs
