import Wormhole.Core.LTS
import Wormhole.L4App.Advertisement
import Wormhole.L4App.ScopedAddresses

/-!
# Aliases

`AliasStore` of `src/wh/wns/aliases.py`: names for addresses, written to a file as JSON on
every change. `system` is a store under any sequence of `add`, `remove` and opening the
file anew, from no file on; `Latest` records the address that was last added for a name.

* `load_save`: what is written is read as what it was.
* `stored_resolves_iff`: a stored name resolves to the address that was last added for it,
  here and in a store that is opened on the file, if and only if it is not itself an
  address: 26 characters of the base 32 alphabet are a valid name.
-/
namespace Wormhole.L4.Wns
open Wormhole.L1 Wormhole.L1.JsonText

/-! ## The store -/

/-- mirrors src/wh/wns/aliases.py:22-29 -/
structure Alias where
  name : Json
  address : Json
  description : Json
  username : Json

/-- `x is not None`. -/
def isNotNone : Json → Bool
  | .null => false
  | _ => true

/-- mirrors src/wh/wns/aliases.py:31-33 -/
def Alias.toDict (a : Alias) : Json :=
  .obj ([("name", a.name), ("address", a.address), ("description", a.description),
    ("username", a.username)].filter fun field => isNotNone field.2)

/-- `none` is an exception.
mirrors src/wh/wns/aliases.py:35-43 -/
def Alias.fromDict (data : Json) : Option Alias := do
  let name ← item data "name"
  let address ← item data "address"
  return {
    name, address
    description := (item data "description").getD .null
    username := (item data "username").getD .null }

/-- The aliases, and the text of `aliases.json`. -/
structure AliasStore where
  aliases : Dict String Alias
  file : Option String

/-- `None`, or the text. -/
def optional : Option String → Json
  | none => .null
  | some s => .str s

/-- `"wh://" in uri and ".wns" in uri`, or an address can be read.
mirrors src/wh/wns/identity.py:452-467 -/
def isWnsAddress (U : Unicode) (uri : Chars) : Bool :=
  (decide (wirePrefix <:+: uri) && decide (wnsSuffix <:+: uri)) || (parseWnsAddress U uri).isSome

/-- mirrors src/wh/wns/aliases.py:125-130 -/
def normalizeAddress (address : Chars) : Chars :=
  if wirePrefix <+: address then address
  else if wnsSuffix <:+ address then wirePrefix ++ address
  else wirePrefix ++ address ++ wnsSuffix

namespace AliasStore

variable (U : Unicode) (L : Lib)

/-- `{name: Alias.from_dict(data) for name, data in entries}`. -/
def readEntries (entries : List (String × Json)) : Option (Dict String Alias) :=
  entries.foldlM (fun aliases entry => (Alias.fromDict entry.2).map (aliases.set entry.1)) .empty

/-- Whatever goes wrong, there are no aliases.
mirrors src/wh/wns/aliases.py:68-84 (`_load`) -/
def load (file : Option String) : Dict String Alias :=
  match file with
  | none => .empty
  | some text =>
    let data := (pyReader.loads text).bind fun data =>
      match data with
      | .obj fields =>
        match (Dict.lookup "aliases" fields).getD (.obj []) with
        | .obj entries => readEntries entries
        | _ => none
      | _ => none
    data.getD .empty

/-- `{name: alias.to_dict() for name, alias in entries}`. -/
def writeEntries (entries : List (String × Alias)) : List (String × Json) :=
  entries.map fun entry => (entry.1, entry.2.toDict)

/-- mirrors src/wh/wns/aliases.py:86-96 (`_save`) -/
def save (aliases : Dict String Alias) : String :=
  (pyIndented L.floatRepr 2).dumps
    (.obj [("version", .int 1), ("aliases", .obj (writeEntries aliases.entries))])

/-- A store on a file.
mirrors src/wh/wns/aliases.py:59-66 (`__init__`) -/
def opened (file : Option String) : AliasStore := ⟨load file, file⟩

/-- The error is a `ValueError`.
mirrors src/wh/wns/aliases.py:98-148 -/
def add (s : AliasStore) (name address : String) (description username : Option String)
    (overwrite : Bool) : Except String AliasStore :=
  if !validName U name.toList then
    .error ("Invalid alias name: " ++ name ++ ". Use alphanumeric, dash, or underscore.")
  else
    let address := String.ofList (normalizeAddress address.toList)
    if (parseWnsAddress U address.toList).isNone then .error ("Invalid WNS address: " ++ address)
    else if s.aliases.contains name && !overwrite then
      .error ("Alias '" ++ name ++ "' already exists. Use --force to overwrite.")
    else
      let aliases := s.aliases.set name
        ⟨.str name, .str address, optional description, optional username⟩
      .ok ⟨aliases, some (save L aliases)⟩

/-- mirrors src/wh/wns/aliases.py:150-163 -/
def remove (s : AliasStore) (name : String) : Bool × AliasStore :=
  if s.aliases.contains name then
    (true, ⟨s.aliases.del name, some (save L (s.aliases.del name))⟩)
  else (false, s)

/-- mirrors src/wh/wns/aliases.py:169-193 -/
def resolve (s : AliasStore) (nameOrAddress : String) : Option Json :=
  if isWnsAddress U nameOrAddress.toList then some (.str nameOrAddress)
  else (s.aliases.get? nameOrAddress).map Alias.address

/-- The user name in front of the first `@`, unless it is an address as it stands.
mirrors src/wh/wns/aliases.py:202-205 -/
def splitUser (nameOrAddress : String) : Option String × String :=
  let cs := nameOrAddress.toList
  if '@' ∈ cs ∧ isWnsAddress U cs = false then
    (some (String.ofList (cs.takeWhile (· ≠ '@'))), String.ofList (afterFirst '@' cs))
  else (none, nameOrAddress)

/-- mirrors src/wh/wns/aliases.py:195-217 -/
def resolveWithUsername (s : AliasStore) (nameOrAddress : String) : Option Json × Json :=
  let (username, nameOrAddress) := splitUser U nameOrAddress
  if isWnsAddress U nameOrAddress.toList then (some (.str nameOrAddress), optional username)
  else
    match s.aliases.get? nameOrAddress with
    | some found =>
      (some found.address,
        if (optional username).truthy then optional username else found.username)
    | none => (none, .null)

/-! ## Any sequence of calls -/

inductive Call where
  | add (name address : String) (description username : Option String) (overwrite : Bool)
  | remove (name : String)
  | reopen

/-- What a call that raises leaves behind is the store as it was. -/
def call (s : AliasStore) : Call → AliasStore
  | .add name address description username overwrite =>
    match s.add U L name address description username overwrite with
    | .ok t => t
    | .error _ => s
  | .remove name => (s.remove L name).2
  | .reopen => opened s.file

/-- The address that was last added for each name, in its full format. -/
abbrev Latest := String → Option String

def recordAdded (latest : Latest) (s : AliasStore) (c : Call) (_ : AliasStore) : Latest :=
  match c with
  | .add name address description username overwrite =>
    match s.add U L name address description username overwrite with
    | .ok _ => fun k =>
      if k = name then some (String.ofList (normalizeAddress address.toList)) else latest k
    | .error _ => latest
  | _ => latest

/-- A store, from no file on, and what was added to it. -/
def system : LTS (AliasStore × Latest) Call :=
  (LTS.ofStep (· = opened none) fun s c => some (s.call U L c)).observe (fun _ => none)
    (recordAdded U L)

/-! ## What is written -/

variable {U L}

/-- What `add` makes. -/
def Alias.Added (name address : String) (a : Alias) : Prop :=
  ∃ description username,
    a = ⟨.str name, .str address, optional description, optional username⟩

theorem fromDict_toDict {name address : String} {a : Alias} (h : Alias.Added name address a) :
    Alias.fromDict a.toDict = some a := by
  obtain ⟨description, username, rfl⟩ := h
  cases description <;> cases username <;> rfl

theorem plain_toDict {name address : String} {a : Alias} (h : Alias.Added name address a) :
    Plain One a.toDict := by
  obtain ⟨description, username, rfl⟩ := h
  cases description <;> cases username <;>
    simp [Alias.toDict, isNotNone, optional, Plain, PlainFields]

/-- The aliases were added. -/
def Added (aliases : Dict String Alias) : Prop :=
  ∀ entry ∈ aliases.entries, ∃ address, Alias.Added entry.1 address entry.2

theorem readEntries_append (rest : List (String × Alias)) (read : Dict String Alias)
    (hkeys : ((read.entries ++ rest).map Prod.fst).Nodup)
    (h : ∀ entry ∈ rest, ∃ address, Alias.Added entry.1 address entry.2) :
    ∃ d, (writeEntries rest).foldlM
        (fun aliases entry => (Alias.fromDict entry.2).map (aliases.set entry.1)) read = some d ∧
      d.entries = read.entries ++ rest := by
  induction rest generalizing read with
  | nil => exact ⟨read, rfl, by simp⟩
  | cons entry rest ih =>
    obtain ⟨address, hadded⟩ := h entry (List.mem_cons_self ..)
    have hnew : entry.1 ∉ read.entries.map Prod.fst := by
      rw [List.map_append, List.map_cons] at hkeys
      intro hmem
      exact (List.nodup_append.mp hkeys).2.2 _ hmem _ (List.mem_cons_self ..) rfl
    have hset : (read.set entry.1 entry.2).entries = read.entries ++ [entry] :=
      Dict.assign_of_notMem hnew entry.2
    obtain ⟨d, hd, hentries⟩ := ih (read.set entry.1 entry.2) (by rw [hset]; simpa using hkeys)
      (fun e he => h e (List.mem_cons_of_mem _ he))
    refine ⟨d, ?_, ?_⟩
    · rw [writeEntries, List.map_cons, List.foldlM_cons, fromDict_toDict hadded]
      exact hd
    · rw [hentries, hset, List.append_assoc]
      rfl

theorem readEntries_map {aliases : Dict String Alias} (h : Added aliases) :
    readEntries (writeEntries aliases.entries) = some aliases := by
  obtain ⟨d, hd, hentries⟩ := readEntries_append aliases.entries .empty aliases.nodup h
  rw [readEntries, hd, Dict.ext hentries]

theorem plain_entries {entries : List (String × Alias)}
    (h : ∀ entry ∈ entries, ∃ address, Alias.Added entry.1 address entry.2) :
    PlainFields One (writeEntries entries) := by
  induction entries with
  | nil => trivial
  | cons entry entries ih =>
    obtain ⟨address, hadded⟩ := h entry (List.mem_cons_self ..)
    exact ⟨plain_toDict hadded, ih fun e he => h e (List.mem_cons_of_mem _ he)⟩

/-- **What is written is read as what it was.** -/
theorem load_save {aliases : Dict String Alias} (h : Added aliases) :
    load (some (save L aliases)) = aliases := by
  have hkeys : ((writeEntries aliases.entries).map Prod.fst).Nodup := by
    rw [writeEntries, List.map_map]
    exact aliases.nodup
  have hplain : Plain One
      (.obj [("version", .int 1), ("aliases", .obj (writeEntries aliases.entries))]) :=
    ⟨by simp, rfl, ⟨hkeys, plain_entries h⟩, trivial⟩
  have hlookup : Dict.lookup "aliases"
      [("version", Json.int 1), ("aliases", .obj (writeEntries aliases.entries))] =
        some (.obj (writeEntries aliases.entries)) := rfl
  unfold load save
  simp only [loads_dumps (py_reads_py L) hplain, Option.bind_some, hlookup, Option.getD_some,
    readEntries_map h]

/-! ## Every reachable store -/

/-- The file is up to date, and every alias is as it was last added. -/
structure Sound (U : Unicode) (L : Lib) (s : AliasStore) (latest : Latest) : Prop where
  file : (s.file = none ∧ s.aliases = .empty) ∨ s.file = some (save L s.aliases)
  added : ∀ name a, s.aliases.get? name = some a → ∃ address, latest name = some address ∧
    Alias.Added name address a ∧ wirePrefix <+: address.toList ∧ validName U name.toList = true

theorem Sound.entries {s : AliasStore} {latest : Latest} (h : Sound U L s latest) :
    Added s.aliases := by
  intro entry hentry
  obtain ⟨address, _, hadded, _⟩ := h.added entry.1 entry.2 (Dict.mem_entries.mp hentry)
  exact ⟨address, hadded⟩

theorem Sound.reopen {s : AliasStore} {latest : Latest} (h : Sound U L s latest) :
    opened s.file = s := by
  obtain ⟨aliases, file⟩ := s
  have hload : load file = aliases := by
    rcases h.file with ⟨hfile, hempty⟩ | hfile
    · dsimp only at hfile hempty
      rw [hfile, hempty]
      rfl
    · dsimp only at hfile
      rw [hfile]
      exact load_save h.entries
  rw [opened, hload]

theorem sound_init : Sound U L (opened none) fun _ => none :=
  ⟨.inl ⟨rfl, rfl⟩, fun name a h => by cases h⟩

theorem prefix_normalizeAddress (address : Chars) : wirePrefix <+: normalizeAddress address := by
  unfold normalizeAddress
  split
  · assumption
  · split
    · exact List.prefix_append _ _
    · rw [List.append_assoc]
      exact List.prefix_append _ _

/-- What a successful `add` does. -/
theorem add_ok {s t : AliasStore} {name address : String} {description username : Option String}
    {overwrite : Bool} (h : s.add U L name address description username overwrite = .ok t) :
    validName U name.toList = true ∧ t.aliases = s.aliases.set name
      ⟨.str name, .str (String.ofList (normalizeAddress address.toList)), optional description,
        optional username⟩ ∧ t.file = some (save L t.aliases) := by
  unfold add at h
  split at h
  · cases h
  · rename_i hvalid
    dsimp only at h
    split at h
    · cases h
    · split at h
      · cases h
      · cases h
        exact ⟨by simpa using hvalid, rfl, rfl⟩

theorem sound_add {s t : AliasStore} {latest : Latest} (h : Sound U L s latest)
    {name address : String} {description username : Option String} {overwrite : Bool}
    (ht : s.add U L name address description username overwrite = .ok t) :
    Sound U L t fun k =>
      if k = name then some (String.ofList (normalizeAddress address.toList)) else latest k := by
  obtain ⟨hvalid, haliases, hfile⟩ := add_ok ht
  refine ⟨.inr hfile, ?_⟩
  intro k a hk
  rw [haliases, Dict.get?_set] at hk
  by_cases hname : name = k
  · rw [if_pos hname] at hk
    cases hk
    refine ⟨_, if_pos hname.symm, ⟨description, username, by rw [hname]⟩, ?_, hname ▸ hvalid⟩
    rw [String.toList_ofList]
    exact prefix_normalizeAddress _
  · rw [if_neg hname] at hk
    rw [if_neg (Ne.symm hname)]
    exact h.added k a hk

theorem sound_remove {s : AliasStore} {latest : Latest} (h : Sound U L s latest) (name : String) :
    Sound U L (s.remove L name).2 latest := by
  unfold remove
  split
  · refine ⟨.inr rfl, ?_⟩
    intro k a hk
    rw [Dict.get?_del] at hk
    split at hk
    · cases hk
    · exact h.added k a hk
  · exact h

theorem sound_step {s t : AliasStore × Latest} {c : Call} (h : Sound U L s.1 s.2)
    (hst : (system U L).step s c t) : Sound U L t.1 t.2 := by
  obtain ⟨s, latest⟩ := s
  obtain ⟨t, latest'⟩ := t
  obtain ⟨hcall, hrecord⟩ := hst
  have ht : s.call U L c = t := Option.some.inj hcall
  dsimp only at ht hrecord h ⊢
  rw [← ht, hrecord]
  cases c with
  | add name address description username overwrite =>
    simp only [call, recordAdded]
    cases hadd : s.add U L name address description username overwrite with
    | ok t => exact sound_add h hadd
    | error message => exact h
  | remove name => exact sound_remove h name
  | reopen =>
    simp only [call, recordAdded, h.reopen]
    exact h

theorem sound_reachable {s : AliasStore} {latest : Latest}
    (h : (system U L).Reachable (s, latest)) : Sound U L s latest := by
  have hI : (system U L).Inductive fun p => Sound U L p.1 p.2 := by
    refine ⟨?_, fun s c t hs hst => sound_step hs hst⟩
    intro p hp
    obtain ⟨hs, hlatest⟩ := hp
    rw [show p.1 = opened none from hs, hlatest]
    exact sound_init
  exact hI.reachable (s, latest) h

/-! ## Resolving -/

/-- A valid name is an address just when it is spelled like one. -/
theorem isWnsAddress_validName {name : Chars} (h : validName U name = true) :
    isWnsAddress U name = isBase32 (strip name) := by
  have hvalid : ∀ c, isAscii c = true → c.isAlphanum = false → c ≠ '-' → c ≠ '_' →
      c ∉ strip name := fun c hascii hc hdash hunder hmem =>
    notMem_validName h hascii hc hdash hunder (mem_of_mem_strip hmem)
  have hcolon := hvalid ':' (by decide) (by decide) (by decide) (by decide)
  have hdot := hvalid '.' (by decide) (by decide) (by decide) (by decide)
  have hat := hvalid '@' (by decide) (by decide) (by decide) (by decide)
  have hwh : ¬ wirePrefix <:+: name := fun hin =>
    notMem_validName (c := ':') h (by decide) (by decide) (by decide) (by decide)
      (hin.subset (by decide))
  have hrest : pyRest name = strip name := by
    rw [pyRest, afterLast_of_notMem hat, dropWh_of_noColon hcolon, dropWns_of_noDot hdot]
  rw [isWnsAddress, decide_eq_false hwh, Bool.false_and, Bool.false_or, parseWnsAddress,
    parseScopedWnsAddress, hrest, readScoped]
  simp only [hdot, false_and, if_false]
  cases isBase32 (strip name) with
  | true => rfl
  | false => rfl

theorem splitUser_validName {name : String} (h : validName U name.toList = true) :
    splitUser U name = (none, name) :=
  if_neg fun hat =>
    notMem_validName h (by decide) (by decide) (by decide) (by decide) hat.1

/-- Both ways of resolving a valid name that is stored. -/
theorem resolve_stored {s : AliasStore} {name : String} {a : Alias}
    (hvalid : validName U name.toList = true) (h : s.aliases.get? name = some a) :
    s.resolve U name = (if isBase32 (strip name.toList) then some (.str name) else some a.address) ∧
      (s.resolveWithUsername U name).1 = s.resolve U name := by
  unfold resolveWithUsername resolve
  rw [splitUser_validName hvalid]
  dsimp only
  rw [isWnsAddress_validName hvalid, h]
  cases isBase32 (strip name.toList) with
  | true => exact ⟨rfl, rfl⟩
  | false => exact ⟨rfl, rfl⟩

/-- **Headline.** A name that is stored resolves to the address that was last added for it, in the
store and in one that is opened on its file, if and only if the name is not 26 characters of
the base 32 alphabet. -/
theorem stored_resolves_iff {s : AliasStore} {latest : Latest}
    (h : (system U L).Reachable (s, latest)) {name : String}
    (hstored : s.aliases.contains name = true) :
    (∀ t, t = s ∨ t = opened s.file →
      t.resolve U name = (latest name).map .str ∧
        (t.resolveWithUsername U name).1 = (latest name).map .str) ↔
      isBase32 (strip name.toList) = false := by
  have hsound := sound_reachable h
  obtain ⟨a, ha⟩ := Option.isSome_iff_exists.mp hstored
  obtain ⟨address, hlatest, ⟨description, username, rfl⟩, hpre, hvalid⟩ := hsound.added name a ha
  obtain ⟨hresolve, hboth⟩ := resolve_stored hvalid ha
  rw [hsound.reopen, hlatest]
  simp only [or_self, forall_eq, hboth, and_self, hresolve, Option.map_some]
  cases hbase : isBase32 (strip name.toList) with
  | false => simp
  | true =>
    -- The name is returned, and has no colon in it.
    have hne : name ≠ address := by
      rintro rfl
      exact notMem_validName (c := ':') hvalid (by decide) (by decide) (by decide) (by decide)
        (hpre.subset (by decide))
    simpa using hne

/-! ## A name that is an address -/

theorem reachable_call {s : AliasStore} {latest : Latest} (h : (system U L).Reachable (s, latest))
    (c : Call) :
    (system U L).Reachable (s.call U L c, recordAdded U L latest s c (s.call U L c)) :=
  h.step ⟨rfl, rfl⟩

def someAddress : String := "aeaaaaaaaaaaaaaaaaaaaaaaaa"

/-- A store with one alias. -/
def withAlias (name : String) : AliasStore :=
  (opened none).call asciiUnicode sampleLib (.add name someAddress none none false)

/-- What was added to it. -/
def aliasAdded (name : String) : Latest :=
  recordAdded asciiUnicode sampleLib (fun _ => none) (opened none)
    (.add name someAddress none none false) (withAlias name)

theorem reachable_withAlias (name : String) :
    (system asciiUnicode sampleLib).Reachable (withAlias name, aliasAdded name) :=
  reachable_call (.init ⟨rfl, rfl⟩) _

theorem stored_resolves_iff_laptop :
    (withAlias "laptop").resolve asciiUnicode "laptop" =
      (aliasAdded "laptop" "laptop").map .str :=
  ((stored_resolves_iff (reachable_withAlias "laptop") (by decide +kernel)).mpr
    (by decide +kernel) _ (.inl rfl)).1

/-- **An alias that is not resolved.** Its name is 26 letters, and is taken for an address. -/
theorem letters_not_resolved :
    ∃ s latest name, (system asciiUnicode sampleLib).Reachable (s, latest) ∧
      s.aliases.contains name = true ∧ s.resolve asciiUnicode name = some (.str name) ∧
      s.resolve asciiUnicode name ≠ (latest name).map .str := by
  have hresolve : (withAlias "abcdefghijklmnopqrstuvwxyz").resolve asciiUnicode
      "abcdefghijklmnopqrstuvwxyz" = some (.str "abcdefghijklmnopqrstuvwxyz") :=
    if_pos (by decide +kernel)
  have hlatest : aliasAdded "abcdefghijklmnopqrstuvwxyz" "abcdefghijklmnopqrstuvwxyz" =
      some ("wh://" ++ someAddress ++ ".wns") := by decide +kernel
  refine ⟨withAlias "abcdefghijklmnopqrstuvwxyz", aliasAdded "abcdefghijklmnopqrstuvwxyz",
    "abcdefghijklmnopqrstuvwxyz", reachable_withAlias _, by decide +kernel, hresolve, ?_⟩
  rw [hresolve, hlatest, Option.map_some]
  intro h
  exact absurd (Json.str.inj (Option.some.inj h)) (by decide)

end AliasStore

end Wormhole.L4.Wns
