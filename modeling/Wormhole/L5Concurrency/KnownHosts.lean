import Wormhole.Core.LTS
import Wormhole.L4App.Discovery

/-!
# Trust on first use

Calls of `Discovery.lookup_and_cache` (`src/wh/wns/discovery.py`), one after the
other, over the files of `known_hosts`. Between two calls everything outside may
change: the backends, the name store, the clock (`World`).

A file is written under the address that is derived from the key, and it is asked
for under the URI when the call decides whether to write. Under an address the two
agree (`lookupAndCache_found`); a global name has no file of its own, and when it
resolves to another address, the key that was pinned is not asked for.

`pinned_of_steady`: in a run in which every global name resolves to one address, a
URI keeps its key.
-/
namespace Wormhole.L5.KnownHosts
open Wormhole.L1 Wormhole.L1.JsonText Wormhole.L4.Wns

variable (U : PyUnicode) (L : Lib) (C : Crypto)

/-! ## The files -/

/-- The files of `known_hosts`, by their names without `.json`; `save_known_host`
names them after an address. -/
structure Hosts where
  files : Dict String Bytes
  named : ∀ name, (files.get? name).isSome = true → isBase32 name.toList = true

/-- What the file of a known host holds.
mirrors src/wh/wns/identity.py:296-311 (`save_known_host`) -/
def hostText (pk : Bytes) : String :=
  (pyIndented L.floatRepr 2).dumps (.obj [("address", .str (deriveAddress C pk).text),
    ("public_key", .str (String.ofList (Base64.b64encode pk))), ("name", .null)])

theorem base32_derived (pk : Bytes) : isBase32 (deriveAddress C pk).text.toList = true := by
  rw [isBase32, Bool.and_eq_true, List.all_eq_true]
  refine ⟨decide_eq_true ?_, fun c hc => decide_eq_true ((deriveAddress C pk).base32 c hc)⟩
  rw [String.length_toList]
  exact (deriveAddress C pk).length_eq

def Hosts.save (s : Hosts) (pk : Bytes) : Hosts where
  files := s.files.set (deriveAddress C pk).text (encode (hostText L C pk))
  named name h := by
    rw [Dict.get?_set] at h
    split at h
    · rename_i hname
      rw [← hname]
      exact base32_derived C pk
    · exact s.named name h

/-- What is pinned for an address; the outer `none` is an exception. -/
def Hosts.pin (s : Hosts) (address : String) : Option (Option Bytes) :=
  loadKnownHost (s.files.get? address)

/-! ## A call -/

/-- The files after a call, and what it returns; `none` is an exception.
mirrors src/wh/wns/discovery.py:409-430 (`lookup_and_cache`) -/
def lookupAndCache (s : Hosts) (W : World) (uri : Chars) : Hosts × Option (Option Found) :=
  match lookup U L C s.files.get? true W uri with
  | none => (s, none)
  | some none => (s, some none)
  | some (some found) =>
    match s.pin (String.ofList uri) with
    | none => (s, none)
    | some (some _) => (s, some (some found))
    | some none =>
      if found.ad.publicKey.length = 32 then (s.save L C found.ad.publicKey, some (some found))
      else (s, none)

structure Call where
  uri : Chars
  world : World
  returned : Option (Option Found)

/-- Calls from any files, one after the other. -/
def calls : LTS Hosts Call where
  init _ := True
  step s call t := lookupAndCache U L C s call.world call.uri = (t, call.returned)

/-- Of two calls of one URI that return an advertisement, the later one returns the
key of the earlier one. -/
def Pinned (ls : List Call) : Prop :=
  ls.Pairwise fun call call' => call.uri = call'.uri → ∀ found found',
    call.returned = some (some found) → call'.returned = some (some found') →
      found'.ad.publicKey = found.ad.publicKey

/-! ## Addresses as URIs -/

theorem base32_mem {cs : Chars} (h : isBase32 cs = true) {c : Char} (hc : c ∈ cs) :
    c ∈ BASE32_ALPHABET.toList := by
  rw [isBase32, Bool.and_eq_true, List.all_eq_true] at h
  exact of_decide_eq_true (h.2 c hc)

/-- No character of an address is one that a URI is taken apart at. -/
theorem base32_plain {cs : Chars} (h : isBase32 cs = true) {c : Char} (hc : c ∈ cs) :
    pyIsSpace c = false ∧ c ≠ '@' ∧ c ≠ ':' ∧ c ≠ '.' := by
  have hall : BASE32_ALPHABET.toList.all (fun c =>
      decide (pyIsSpace c = false ∧ c ≠ '@' ∧ c ≠ ':' ∧ c ≠ '.')) = true := by decide
  exact of_decide_eq_true (List.all_eq_true.mp hall c (base32_mem h hc))

/-- Nothing is stripped of an address. -/
theorem pyRest_base32 {cs : Chars} (h : isBase32 cs = true) : pyRest cs = cs := by
  have hspace : ∀ c ∈ cs, pyIsSpace c = false := fun c hc => (base32_plain h hc).1
  have hat : ∀ c ∈ cs, decide (c ≠ '@') = true := fun c hc =>
    decide_eq_true (base32_plain h hc).2.1
  have hprefix : ¬ wirePrefix <+: cs := fun hp =>
    (base32_plain h (hp.subset (by decide : ':' ∈ wirePrefix))).2.2.1 rfl
  have hsuffix : ¬ wnsSuffix <:+ cs := fun hp =>
    (base32_plain h (hp.subset (by decide : '.' ∈ wnsSuffix))).2.2.2 rfl
  have hstrip : strip cs = cs := by
    have hdrop : cs.dropWhile pyIsSpace = cs := by
      cases cs with
      | nil => rfl
      | cons c cs => rw [List.dropWhile_cons, hspace c List.mem_cons_self]; rfl
    rw [strip, hdrop, List.rdropWhile_eq_self_iff]
    intro hne
    rw [hspace _ (List.getLast_mem hne)]
    exact Bool.false_ne_true
  rw [pyRest, hstrip, afterLast, List.rtakeWhile_eq_self_iff.mpr hat, dropWh, if_neg hprefix,
    dropWns, if_neg hsuffix]

theorem parseWnsAddress_of_base32 {V : Unicode} {cs : Chars} (h : isBase32 cs = true) :
    parseWnsAddress V cs = some cs := by
  have hread : readScoped V cs = some (none, cs) :=
    (readScoped_iff cs cs none).mpr ⟨rfl, h, fun n hn => by cases hn⟩
  rw [parseWnsAddress, parseScopedWnsAddress, pyRest_base32 h, hread]
  rfl

/-! ## One call -/

variable {U L C}

/-- What is written for a key is read as the key. -/
theorem loadKnownHost_hostText {pk : Bytes} (h : pk.length = 32) :
    loadKnownHost (some (encode (hostText L C pk))) = some (some pk) := by
  have hplain : Plain One (.obj [("address", .str (deriveAddress C pk).text),
      ("public_key", .str (String.ofList (Base64.b64encode pk))), ("name", .null)]) :=
    ⟨by simp, trivial, trivial, trivial, trivial⟩
  unfold loadKnownHost
  simp only [decode_encode, Option.bind_some, hostText, loads_dumps (py_reads_py L) hplain]
  rw [show bytesItem _ "public_key" = some pk from bytesItem_b64encode rfl]
  exact if_pos h

theorem pin_save {s : Hosts} {pk : Bytes} (h : pk.length = 32) :
    (s.save L C pk).pin (deriveAddress C pk).text = some (some pk) := by
  rw [Hosts.pin, Hosts.save, Dict.get?_set_self]
  exact loadKnownHost_hostText h

theorem pin_save_ne {s : Hosts} {pk : Bytes} {address : String}
    (h : (deriveAddress C pk).text ≠ address) : (s.save L C pk).pin address = s.pin address := by
  rw [Hosts.pin, Hosts.save, Dict.get?_set_ne _ _ h]
  rfl

theorem target_truthy {W : World} {uri : Chars} {a : Json}
    (h : target U L C W uri = some (some a)) : a.truthy = true := by
  unfold target at h
  split at h
  · obtain ⟨resolved, -, hr⟩ := Option.map_eq_some_iff.mp h
    exact (Option.filter_eq_some_iff.mp hr).2
  · obtain ⟨cs, hparse, rfl⟩ := Option.map_eq_some_iff.mp (Option.some.inj h)
    refine decide_eq_true fun he => parseWnsAddress_ne_nil hparse ?_
    rw [← String.toList_ofList (l := cs), he]
    rfl

/-- A record that a backend has under an address is one of a key that hashes to it. -/
theorem source_lookup_address {source : Source} {a : Json} {found : Found}
    (h : source.lookup L C a = some found) (ha : a.truthy = true) :
    a = .str (deriveAddress C found.ad.publicKey).text ∧ found.ad.publicKey.length = 32 := by
  obtain ⟨t, t', ad, hcheck⟩ := lookup_checked h
  unfold checkAd at hcheck
  split at hcheck
  · rename_i hverify _
    cases hcheck
    obtain ⟨-, hlen, -, hexpected, -⟩ := verify_true hverify
    exact ⟨hexpected ha, hlen⟩
  · cases hcheck

/-- What a call has found: a record under the address of its key, which is pinned
for that address or nothing is. -/
theorem lookup_found {s : Hosts} {W : World} {uri : Chars} {found : Found}
    (h : lookup U L C s.files.get? true W uri = some (some found)) :
    target U L C W uri = some (some (.str (deriveAddress C found.ad.publicKey).text)) ∧
      found.ad.publicKey.length = 32 ∧
      (∃ source ∈ W.sources, (source.lookup L C
        (.str (deriveAddress C found.ad.publicKey).text)).isSome = true) ∧
      (s.pin (deriveAddress C found.ad.publicKey).text = some none ∨
        s.pin (deriveAddress C found.ad.publicKey).text = some (some found.ad.publicKey)) := by
  obtain ⟨address, htarget, h⟩ := Option.map_eq_some_iff.mp h
  obtain ⟨a, rfl, h⟩ := Option.bind_eq_some_iff.mp h
  obtain ⟨source, hmem, h⟩ := List.exists_of_findSome?_eq_some h
  obtain ⟨hsource, hpin⟩ := Option.filter_eq_some_iff.mp h
  obtain ⟨rfl, hlen⟩ := source_lookup_address hsource (target_truthy htarget)
  refine ⟨htarget, hlen, ⟨source, hmem, by rw [hsource]; rfl⟩, ?_⟩
  have hagrees : pinAgrees L s.files.get? (.str (deriveAddress C found.ad.publicKey).text)
      found = true := hpin
  unfold pinAgrees at hagrees
  split at hagrees
  · cases hagrees
  · rename_i hload
    exact .inl hload
  · rename_i pk hload
    rw [of_decide_eq_true hagrees] at hload
    exact .inr hload

/-- The file that a URI names is the file of the address it stands for. -/
theorem target_of_file {s : Hosts} {W : World} {uri : Chars}
    (h : (s.files.get? (String.ofList uri)).isSome = true) :
    target U L C W uri = some (some (.str (String.ofList uri))) := by
  have hbase : isBase32 uri = true := by
    have := s.named _ h
    rwa [String.toList_ofList] at this
  have hparse : parseWnsAddress U.toUnicode uri = some uri := parseWnsAddress_of_base32 hbase
  rw [target, parseWnsAddress_global hparse, hparse]
  rfl

/-- Every way a call ends: either no file is written, or the file of the key that is
returned. -/
theorem lookupAndCache_cases {s t : Hosts} {W : World} {uri : Chars}
    {returned : Option (Option Found)} (h : lookupAndCache U L C s W uri = (t, returned)) :
    t = s ∧ (∀ found, returned = some (some found) →
      lookup U L C s.files.get? true W uri = some (some found) ∧
        ∃ pk, s.pin (String.ofList uri) = some (some pk)) ∨
    ∃ found, returned = some (some found) ∧
      lookup U L C s.files.get? true W uri = some (some found) ∧
      t = s.save L C found.ad.publicKey := by
  unfold lookupAndCache at h
  split at h
  · cases h
    exact .inl ⟨rfl, fun found hf => by cases hf⟩
  · cases h
    exact .inl ⟨rfl, fun found hf => by cases hf⟩
  · rename_i found hlookup
    split at h
    · cases h
      exact .inl ⟨rfl, fun found hf => by cases hf⟩
    · rename_i pk hpin
      cases h
      refine .inl ⟨rfl, fun found' hf => ?_⟩
      cases hf
      exact ⟨hlookup, pk, hpin⟩
    · split at h
      · cases h
        exact .inr ⟨found, rfl, hlookup, rfl⟩
      · cases h
        exact .inl ⟨rfl, fun found hf => by cases hf⟩

/-- After a call that returns a key, the key is pinned for the address that the URI
stood for, and before it no other key was. -/
theorem lookupAndCache_found {s t : Hosts} {W : World} {uri : Chars} {found : Found}
    (h : lookupAndCache U L C s W uri = (t, some (some found))) :
    target U L C W uri = some (some (.str (deriveAddress C found.ad.publicKey).text)) ∧
      (∃ source ∈ W.sources, (source.lookup L C
        (.str (deriveAddress C found.ad.publicKey).text)).isSome = true) ∧
      (s.pin (deriveAddress C found.ad.publicKey).text = some none ∨
        s.pin (deriveAddress C found.ad.publicKey).text = some (some found.ad.publicKey)) ∧
      t.pin (deriveAddress C found.ad.publicKey).text = some (some found.ad.publicKey) := by
  rcases lookupAndCache_cases h with ⟨rfl, hreturned⟩ | ⟨found', hf, hlookup, rfl⟩
  · obtain ⟨hlookup, pk, hpin⟩ := hreturned found rfl
    obtain ⟨htarget, hlen, hsource, hagrees⟩ := lookup_found hlookup
    refine ⟨htarget, hsource, hagrees, ?_⟩
    have hfile : (t.files.get? (String.ofList uri)).isSome = true := by
      cases hget : t.files.get? (String.ofList uri) with
      | none =>
        rw [Hosts.pin, hget] at hpin
        cases hpin
      | some content => rfl
    have huri : String.ofList uri = (deriveAddress C found.ad.publicKey).text := by
      have heq := (target_of_file hfile).symm.trans htarget
      exact Json.str.inj (Option.some.inj (Option.some.inj heq))
    rw [huri] at hpin
    rcases hagrees with hnone | hsome
    · rw [hnone] at hpin
      cases hpin
    · exact hsome
  · cases hf
    obtain ⟨htarget, hlen, hsource, hagrees⟩ := lookup_found hlookup
    exact ⟨htarget, hsource, hagrees, pin_save hlen⟩

/-- What is pinned stays pinned. -/
theorem lookupAndCache_pin {s t : Hosts} {W : World} {uri : Chars}
    {returned : Option (Option Found)} (h : lookupAndCache U L C s W uri = (t, returned))
    {address : String} {pk : Bytes} (hpin : s.pin address = some (some pk)) :
    t.pin address = some (some pk) := by
  rcases lookupAndCache_cases h with ⟨rfl, -⟩ | ⟨found, -, hlookup, rfl⟩
  · exact hpin
  · obtain ⟨-, hlen, -, hagrees⟩ := lookup_found hlookup
    by_cases ha : (deriveAddress C found.ad.publicKey).text = address
    · subst ha
      rw [pin_save hlen]
      rcases hagrees with hnone | hsome
      · rw [hnone] at hpin
        cases hpin
      · rw [← hsome, hpin]
    · rw [pin_save_ne ha]
      exact hpin

/-! ## Runs -/

variable (U L C)

/-- Some backend has a record for the address. -/
def offers (W : World) (address : Json) : Prop :=
  ∃ source ∈ W.sources, (source.lookup L C address).isSome = true

/-- A global name stands for the address that `σ` gives it, or for none, or for one
that no backend has a record of. -/
def Steady (σ : Chars → Json) (call : Call) : Prop :=
  (parseGlobalName U call.uri).isSome = true → ∀ a,
    target U L C call.world call.uri = some (some a) → offers L C call.world a → a = σ call.uri

variable {U L C}

/-- A URI stands for one address, as far as there is anything to find. -/
theorem Steady.target_eq {σ : Chars → Json} {call call' : Call} (h : Steady U L C σ call)
    (h' : Steady U L C σ call') (huri : call.uri = call'.uri) {a a' : Json}
    (ha : target U L C call.world call.uri = some (some a)) (hoffers : offers L C call.world a)
    (ha' : target U L C call'.world call'.uri = some (some a'))
    (hoffers' : offers L C call'.world a') : a = a' := by
  by_cases hglobal : (parseGlobalName U call.uri).isSome = true
  · have h1 := h hglobal a ha hoffers
    rw [huri] at hglobal h1
    rw [h1, h' hglobal a' ha' hoffers']
  · rw [Option.not_isSome_iff_eq_none] at hglobal
    simp only [target, hglobal] at ha
    rw [huri] at hglobal ha
    simp only [target, hglobal] at ha'
    rw [ha] at ha'
    exact Option.some.inj (Option.some.inj ha')

/-- Every key that was returned is pinned, for the address that its URI stood for. -/
def Returned (σ : Chars → Json) (ls : List Call) (s : Hosts) : Prop :=
  ∀ call ∈ ls, ∀ found, call.returned = some (some found) → Steady U L C σ call ∧
    target U L C call.world call.uri =
      some (some (.str (deriveAddress C found.ad.publicKey).text)) ∧
    offers L C call.world (.str (deriveAddress C found.ad.publicKey).text) ∧
    s.pin (deriveAddress C found.ad.publicKey).text = some (some found.ad.publicKey)

theorem returned_step {σ : Chars → Json} {pre : List Call} {s t : Hosts} {call : Call}
    (hi : Returned (U := U) (L := L) (C := C) σ pre s) (hsteady : Steady U L C σ call)
    (hstep : (calls U L C).step s call t) :
    Returned (U := U) (L := L) (C := C) σ (pre ++ [call]) t := by
  intro earlier hmem found hreturned
  rcases List.mem_append.mp hmem with hmem | hmem
  · obtain ⟨hst, htarget, hoffers, hpin⟩ := hi earlier hmem found hreturned
    exact ⟨hst, htarget, hoffers, lookupAndCache_pin hstep hpin⟩
  · rw [List.mem_singleton.mp hmem] at hreturned ⊢
    have hcall : lookupAndCache U L C s call.world call.uri = (t, call.returned) := hstep
    rw [hreturned] at hcall
    obtain ⟨htarget, hoffers, -, hpin⟩ := lookupAndCache_found hcall
    exact ⟨hsteady, htarget, hoffers, hpin⟩

/-- One more call keeps the keys. -/
theorem pinned_step {σ : Chars → Json} {pre : List Call} {s t : Hosts} {call : Call}
    (hp : Pinned pre) (hi : Returned (U := U) (L := L) (C := C) σ pre s)
    (hsteady : Steady U L C σ call) (hstep : (calls U L C).step s call t) :
    Pinned (pre ++ [call]) := by
  refine List.pairwise_append.mpr ⟨hp, List.pairwise_singleton _ _, ?_⟩
  intro earlier hmem call' hcall' huri found found' hreturned hreturned'
  rw [List.mem_singleton.mp hcall'] at huri hreturned'
  have hcall : lookupAndCache U L C s call.world call.uri = (t, call.returned) := hstep
  rw [hreturned'] at hcall
  obtain ⟨htarget', hoffers', hagrees, -⟩ := lookupAndCache_found hcall
  obtain ⟨hst, htarget, hoffers, hpin⟩ := hi earlier hmem found hreturned
  have haddress := Json.str.inj
    (hst.target_eq hsteady huri htarget hoffers htarget' hoffers')
  rw [← haddress] at hagrees
  rcases hagrees with hnone | hsome
  · rw [hpin] at hnone
    cases hnone
  · rw [hpin] at hsome
    exact (Option.some.inj (Option.some.inj hsome)).symm

/-- **Headline.** In a run in which every global name stands for one address, as far
as there is anything to find, a URI that has returned a key returns no other. -/
theorem pinned_of_steady (U : PyUnicode) (L : Lib) (C : Crypto) (σ : Chars → Json)
    {s t : Hosts} {ls : List Call}
    (h : ((calls U L C).restrict fun _ => Steady U L C σ).Run s ls t) : Pinned ls := by
  have hboth : Pinned ls ∧ Returned (U := U) (L := L) (C := C) σ ls t := by
    refine LTS.Run.history
      (I := fun ls t => Pinned ls ∧ Returned (U := U) (L := L) (C := C) σ ls t) ?_ ?_ h
    · rintro pre s call t - ⟨hp, hi⟩ ⟨hsteady, hstep⟩
      exact ⟨pinned_step hp hi hsteady hstep, returned_step hi hsteady hstep⟩
    · exact ⟨List.Pairwise.nil, fun call hmem => absurd hmem List.not_mem_nil⟩
  exact hboth.1

/-! ## A name that is given to another key -/

/-- The address of a seed. -/
def sampleAddressOf (seed : Bytes) : String :=
  (deriveAddress Crypto.sample (Crypto.sample.publicKey seed)).text

def sampleRecord (seed : Bytes) : CodeAdvertisement where
  address := .str (sampleAddressOf seed)
  code := .str "7-guitar-sunset"
  timestamp := newYear
  expires := fivePast
  publicKey := Crypto.sample.publicKey seed
  signature := Crypto.sample.sign seed (CodeAdvertisement.createSignMessage
    (sampleAddressOf seed) "7-guitar-sunset" newYear fivePast)
  version := .int 1
  scopedName := .null

def sampleClaim (seed : Bytes) : NameClaim where
  name := .str "laptop"
  address := .str (sampleAddressOf seed)
  timestamp := newYear
  expires := fivePast
  publicKey := Crypto.sample.publicKey seed
  signature := Crypto.sample.sign seed (CodeAdvertisement.createSignMessage
    "laptop" (sampleAddressOf seed) newYear fivePast)
  version := .int 1

/-- `laptop` is claimed by a seed, which advertises under its address. -/
def sampleWorld (seed : Bytes) : World where
  sources := [.file (fun _ => some (encode ((sampleRecord seed).toJson sampleLib)))
    newYear.clock newYear.clock]
  names _ := some (encode ((sampleClaim seed).toJson sampleLib))
  nameClock := newYear.clock

def laptop : Chars := "wh://laptop.wns".toList

/-- What a call finds that looks `laptop` up. -/
def sampleCall (seed : Bytes) : Call where
  uri := laptop
  world := sampleWorld seed
  returned := some (some ⟨sampleRecord seed, newYear.clock⟩)

theorem verify_sampleRecord (seed : Bytes) :
    (sampleRecord seed).verify sampleLib Crypto.sample newYear.clock
      (.str (sampleAddressOf seed)) = some true := by
  have hexpired : (sampleRecord seed).isExpired newYear.clock = some false := by
    change reached newYear.clock fivePast = some false
    decide +kernel
  have hlen : (sampleRecord seed).publicKey.length = 32 := Crypto.sample.length_publicKey seed
  have hsign : (sampleRecord seed).signature.length = 64 := Crypto.sample.length_sign seed _
  have htext : isText (deriveAddress Crypto.sample (sampleRecord seed).publicKey).text
      (.str (sampleAddressOf seed)) = true := isText_iff.mpr rfl
  have hsigned : identityVerify Crypto.sample (sampleRecord seed).publicKey
      ((sampleRecord seed).message sampleLib (sampleAddressOf seed))
      (sampleRecord seed).signature = true := by
    rw [identityVerify_iff hsign]
    exact decide_eq_true rfl
  unfold CodeAdvertisement.verify
  rw [hexpired]
  simp only [hlen, ne_eq, not_true_eq_false, if_false]
  rw [show (sampleRecord seed).address = .str (sampleAddressOf seed) from rfl, htext]
  simp only [Bool.not_true, Bool.false_eq_true, if_false, and_false]
  exact congrArg some hsigned

theorem lookup_sampleRecord (seed : Bytes) :
    (Source.file (fun _ => some (encode ((sampleRecord seed).toJson sampleLib)))
      newYear.clock newYear.clock).lookup sampleLib Crypto.sample (.str (sampleAddressOf seed)) =
      some ⟨sampleRecord seed, newYear.clock⟩ := by
  have hexpired : (sampleRecord seed).isExpired newYear.clock = some false := by
    change reached newYear.clock fivePast = some false
    decide +kernel
  have hread : CodeAdvertisement.fromJson sampleLib ((sampleRecord seed).toJson sampleLib) =
      some (sampleRecord seed) :=
    fromJson_toJson (plain_toDict rfl trivial trivial trivial)
      (by rw [show (sampleRecord seed).timestamp = newYear from rfl]; decide +kernel)
      (by rw [show (sampleRecord seed).expires = fivePast from rfl]; decide +kernel) (.inl rfl)
  rw [lookup_file hread]
  simp only [checkAd, verify_sampleRecord, hexpired]

theorem target_sampleWorld (seed : Bytes) :
    target sampleUnicode sampleLib Crypto.sample (sampleWorld seed) laptop =
      some (some (.str (sampleAddressOf seed))) := by
  have hglobal : parseGlobalName sampleUnicode laptop = some "laptop".toList := by decide +kernel
  have hread : (pyReader.loads ((sampleClaim seed).toJson sampleLib)).bind
      (NameClaim.fromDict sampleLib) = some (sampleClaim seed) :=
    NameClaim.loads_toJson rfl trivial trivial
      (by rw [show (sampleClaim seed).timestamp = newYear from rfl]; decide +kernel)
      (by rw [show (sampleClaim seed).expires = fivePast from rfl]; decide +kernel)
  have hload : loadClaim sampleUnicode sampleLib (sampleWorld seed).names "laptop" =
      some (some (sampleClaim seed)) := loadClaim_toJson hread
  have hexpired : (sampleClaim seed).isExpired (sampleWorld seed).nameClock = some false := by
    change reached newYear.clock fivePast = some false
    decide +kernel
  have hresolve : resolveGlobalName sampleUnicode sampleLib Crypto.sample (sampleWorld seed)
      "laptop" = some (some (.str (sampleAddressOf seed))) := by
    simp only [resolveGlobalName, resolveClaim, hload, hexpired]
    rfl
  have htruthy : Json.truthy (.str (sampleAddressOf seed)) = true := by
    refine decide_eq_true fun he => ?_
    have hlen := (deriveAddress Crypto.sample (Crypto.sample.publicKey seed)).length_eq
    rw [show (deriveAddress Crypto.sample (Crypto.sample.publicKey seed)).text = "" from he] at hlen
    cases hlen
  unfold target
  rw [hglobal]
  change (resolveGlobalName _ _ _ _ "laptop").map _ = _
  rw [hresolve, Option.map_some, Option.filter_some, if_pos htruthy]

/-- The call returns the record and pins the key, unless another is pinned. -/
theorem step_sampleCall {s : Hosts} (seed : Bytes)
    (h : s.pin (sampleAddressOf seed) = some none ∨
      s.pin (sampleAddressOf seed) = some (some (Crypto.sample.publicKey seed))) :
    (calls sampleUnicode sampleLib Crypto.sample).step s (sampleCall seed)
      (s.save sampleLib Crypto.sample (Crypto.sample.publicKey seed)) := by
  have hpin : pinAgrees sampleLib s.files.get? (.str (sampleAddressOf seed))
      ⟨sampleRecord seed, newYear.clock⟩ = true := by
    have hload : loadKnownHost (s.files.get? (sampleLib.format (.str (sampleAddressOf seed)))) =
        s.pin (sampleAddressOf seed) := rfl
    unfold pinAgrees
    rw [hload]
    rcases h with h | h
    · rw [h]
    · rw [h]
      exact decide_eq_true rfl
  have hlookup : lookup sampleUnicode sampleLib Crypto.sample s.files.get? true
      (sampleWorld seed) laptop = some (some ⟨sampleRecord seed, newYear.clock⟩) := by
    rw [lookup, target_sampleWorld, Option.map_some, Option.bind_some]
    simp only [sampleWorld, List.findSome?_cons, lookup_sampleRecord, Option.filter_some]
    have haccepts : accepts sampleLib s.files.get? true (.str (sampleAddressOf seed))
        ⟨sampleRecord seed, newYear.clock⟩ = true := hpin
    rw [if_pos haccepts]
  have huri : s.pin (String.ofList laptop) = some none := by
    cases hget : s.files.get? (String.ofList laptop) with
    | none =>
      rw [Hosts.pin, hget]
      rfl
    | some content =>
      have hnamed := s.named (String.ofList laptop) (by rw [hget]; rfl)
      have hnot : isBase32 (String.ofList laptop).toList = false := by decide +kernel
      rw [hnot] at hnamed
      cases hnamed
  change lookupAndCache _ _ _ s (sampleWorld seed) laptop = _
  unfold lookupAndCache
  rw [hlookup]
  simp only [huri]
  exact if_pos (Crypto.sample.length_publicKey seed)

def noHosts : Hosts where
  files := Dict.empty
  named name h := by cases h

theorem sampleAddressOf_ne : sampleAddressOf [1] ≠ sampleAddressOf [2] := by decide +kernel

/-- The name keeps its address, and its key. -/
theorem pinned_twice : Pinned [sampleCall [1], sampleCall [1]] := by
  have hsteady : Steady sampleUnicode sampleLib Crypto.sample
      (fun _ => .str (sampleAddressOf [1])) (sampleCall [1]) := by
    intro _ a ha _
    have htarget := target_sampleWorld [1]
    rw [show target sampleUnicode sampleLib Crypto.sample (sampleWorld [1]) laptop =
      some (some a) from ha] at htarget
    exact Option.some.inj (Option.some.inj htarget)
  have hfirst := step_sampleCall (s := noHosts) [1] (.inl rfl)
  have hsecond := step_sampleCall [1]
    (.inr (pin_save (L := sampleLib) (s := noHosts) (Crypto.sample.length_publicKey [1])))
  exact pinned_of_steady sampleUnicode sampleLib Crypto.sample _
    (.cons ⟨hsteady, hfirst⟩ (.cons ⟨hsteady, hsecond⟩ (.nil _)))

/-- The name is claimed for another identity, and its key is returned. -/
theorem repointed_not_pinned :
    ¬ ∀ (U : PyUnicode) (L : Lib) (C : Crypto) (s t : Hosts) (ls : List Call),
      (calls U L C).Run s ls t → Pinned ls := by
  intro h
  have hpin : (noHosts.save sampleLib Crypto.sample (Crypto.sample.publicKey [1])).pin
      (sampleAddressOf [2]) = some none := by
    rw [pin_save_ne sampleAddressOf_ne]
    rfl
  have hfirst := step_sampleCall (s := noHosts) [1] (.inl rfl)
  have hsecond := step_sampleCall [2] (.inl hpin)
  have hpinned := h _ _ _ _ _ _ (.cons hfirst (.cons hsecond (.nil _)))
  have hkey := (List.pairwise_cons.mp hpinned).1 _ List.mem_cons_self rfl _ _ rfl rfl
  have hne : Crypto.sample.publicKey [2] ≠ Crypto.sample.publicKey [1] := by decide
  exact hne hkey

end Wormhole.L5.KnownHosts
