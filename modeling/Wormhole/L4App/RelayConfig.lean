import Wormhole.Core.LTS
import Wormhole.L1Encoding.Yaml
import Wormhole.L4App.Advertisement

/-!
# Relay configurations

`src/wh/relay/config.py`: the relays a `RelayConfigManager` has by name, one of them the
default, kept in memory once they were loaded and written to `relays.yaml` by every call that
changes them. `system` is a manager that started without a file, under any sequence of calls;
names are strings.

A value that is `None` is left out of the file, and the two addresses of a relay must be in
the file for it to be read again. `import_relay` takes them as they come.

* `loaded_stored`: a configuration whose addresses are all set is read back as it was written.
* `always_usable_iff`: the configuration stays usable, also for a new manager on the same
  directory, exactly when no import that succeeds has a null address.
-/
namespace Wormhole.L4.Relays
open Wormhole.L1
open Wormhole.L4.Wns (item textItem)

/-! ## Relays -/

/-- What an import does not check is any value.
mirrors src/wh/relay/config.py:22-30 -/
structure RelayConfig where
  name : String
  mailboxUrl : Json
  transitUrl : Json
  namespaceKey : Json
  description : Json

inductive Raised
  | value (message : String)
  /-- The item that is missing, also where there are no items at all. -/
  | key (name : String)
  /-- The file is no YAML, or has another shape. -/
  | file
deriving DecidableEq

/-- `data[key]` -/
def required (data : Json) (key : String) : Except Raised Json :=
  match item data key with
  | some v => .ok v
  | none => .error (.key key)

/-- `data.get(key)` -/
def optional (data : Json) (key : String) : Json := (item data key).getD .null

def isNull : Json → Bool
  | .null => true
  | _ => false

/-- mirrors src/wh/relay/config.py:32-35 -/
def RelayConfig.toDict (r : RelayConfig) : Fields :=
  [("name", Json.str r.name), ("mailbox_url", r.mailboxUrl), ("transit_url", r.transitUrl),
    ("namespace_key", r.namespaceKey), ("description", r.description)].filter
      fun field => !isNull field.2

/-- The name is the one under which the file has the relay.
mirrors src/wh/relay/config.py:37-46, 77-78 -/
def RelayConfig.fromDict (name : String) (data : Json) : Except Raised RelayConfig :=
  match required data "mailbox_url" with
  | .error e => .error e
  | .ok mailboxUrl =>
    match required data "transit_url" with
    | .error e => .error e
    | .ok transitUrl =>
      .ok ⟨name, mailboxUrl, transitUrl, optional data "namespace_key",
        optional data "description"⟩

/-- mirrors src/wh/relay/config.py:49-54 -/
structure RelayConfigFile where
  default : String
  relays : Dict String RelayConfig

/-- mirrors src/wh/relay/config.py:59-64 -/
def publicRelay : RelayConfig where
  name := "public"
  mailboxUrl := .str "ws://relay.magic-wormhole.io:4000/v1"
  transitUrl := .str "tcp:transit.magic-wormhole.io:4001"
  namespaceKey := .null
  description := .str "Official Magic Wormhole relay"

/-- With the public relay, whatever relays there are.
mirrors src/wh/relay/config.py:56-64 -/
def RelayConfigFile.new (default : String) (relays : Dict String RelayConfig) :
    RelayConfigFile where
  default := default
  relays := if relays.contains "public" then relays else relays.set "public" publicRelay

/-- mirrors src/wh/relay/config.py:66-71 -/
def RelayConfigFile.toDict (c : RelayConfigFile) : Json :=
  .obj [("default", .str c.default),
    ("relays", .obj (c.relays.entries.map fun e => (e.1, .obj e.2.toDict)))]

/-- The loop over the items.
mirrors src/wh/relay/config.py:76-79 -/
def readRelays : Fields → Dict String RelayConfig → Except Raised (Dict String RelayConfig)
  | [], relays => .ok relays
  | (name, data) :: rest, relays =>
    match RelayConfig.fromDict name data with
    | .error e => .error e
    | .ok r => readRelays rest (relays.set name r)

/-- mirrors src/wh/relay/config.py:73-85 -/
def RelayConfigFile.fromDict (data : Json) : Except Raised RelayConfigFile :=
  match (item data "relays").getD (.obj []) with
  | .obj fields =>
    match readRelays fields Dict.empty with
    | .error e => .error e
    | .ok relays => .ok (.new ((textItem data "default").getD "public") relays)
  | _ => .error .file

/-! ## The manager -/

variable (Y : Yaml)

/-- The configuration once it was loaded, and the file. -/
structure RelayConfigManager where
  config : Option RelayConfigFile
  file : Option Y.Text

def RelayConfigManager.new (file : Option Y.Text) : RelayConfigManager Y := ⟨none, file⟩

namespace RelayConfigManager

variable {Y}

/-- What the file says, or the configuration without a file.
mirrors src/wh/relay/config.py:106-112 -/
def read (m : RelayConfigManager Y) : Except Raised RelayConfigFile :=
  match m.file with
  | none => .ok (.new "public" Dict.empty)
  | some text =>
    match Y.load text with
    | none => .error .file
    | some data => RelayConfigFile.fromDict (if data.truthy then data else .obj [])

/-- mirrors src/wh/relay/config.py:101-113 -/
def load (m : RelayConfigManager Y) : Except Raised RelayConfigFile :=
  match m.config with
  | some c => .ok c
  | none => m.read

/-- The configuration is `c` from now on, in memory and in the file.
mirrors src/wh/relay/config.py:115-127 -/
def save (_ : RelayConfigManager Y) (c : RelayConfigFile) : RelayConfigManager Y :=
  ⟨some c, some (Y.dump c.toDict)⟩

/-- The configuration is loaded and stays in memory, whatever comes of `body`. -/
def loading {α : Type} (m : RelayConfigManager Y)
    (body : RelayConfigFile → Except Raised (RelayConfigManager Y × α)) :
    RelayConfigManager Y × Except Raised α :=
  match m.load with
  | .error e => (m, .error e)
  | .ok c =>
    match body c with
    | .error e => ({ m with config := some c }, .error e)
    | .ok (m', a) => (m', .ok a)

/-- mirrors src/wh/relay/config.py:129-154 -/
def addRelay (m : RelayConfigManager Y) (relay : RelayConfig) (setDefault : Bool) :
    RelayConfigManager Y × Except Raised RelayConfig :=
  m.loading fun c => .ok (m.save
    { default := if setDefault then relay.name else c.default
      relays := c.relays.set relay.name relay }, relay)

/-- mirrors src/wh/relay/config.py:156-173 -/
def removeRelay (m : RelayConfigManager Y) (name : String) :
    RelayConfigManager Y × Except Raised Bool :=
  m.loading fun c =>
    if name = "public" then .error (.value "Cannot remove the 'public' relay")
    else if !c.relays.contains name then .ok ({ m with config := some c }, false)
    else .ok (m.save
      { default := if c.default = name then "public" else c.default
        relays := c.relays.del name }, true)

/-- mirrors src/wh/relay/config.py:184-187 -/
def getDefaultRelay (m : RelayConfigManager Y) :
    RelayConfigManager Y × Except Raised RelayConfig :=
  m.loading fun c =>
    match c.relays.get? c.default with
    | some r => .ok ({ m with config := some c }, r)
    | none => .error (.key c.default)

/-- mirrors src/wh/relay/config.py:189-197 -/
def setDefault (m : RelayConfigManager Y) (name : String) :
    RelayConfigManager Y × Except Raised Unit :=
  m.loading fun c =>
    if !c.relays.contains name then .error (.value s!"Relay '{name}' not found")
    else .ok (m.save { c with default := name }, ())

/-- mirrors src/wh/relay/config.py:204-213 -/
def exportRelay (m : RelayConfigManager Y) (name : String) :
    RelayConfigManager Y × Except Raised Json :=
  m.loading fun c =>
    match c.relays.get? name with
    | none => .error (.value s!"Relay '{name}' not found")
    | some r => .ok ({ m with config := some c },
        .obj [("version", .int 1), ("relay", .obj r.toDict)])

end RelayConfigManager

/-- `name_override or relay_data["name"]` -/
def importName (relay : Json) (nameOverride : Option String) : Except Raised String :=
  match nameOverride.filter (· ≠ "") with
  | some name => .ok name
  | none =>
    match textItem relay "name" with
    | some name => .ok name
    | none => .error (.key "name")

/-- The relay that exported data is for.
mirrors src/wh/relay/config.py:222-234 -/
def readExport (data : Json) (nameOverride : Option String) : Except Raised RelayConfig :=
  if (item data "version").bind Json.key ≠ some (.num 1) then
    .error (.value "Unsupported relay config version")
  else
    match required data "relay" with
    | .error e => .error e
    | .ok relay =>
      match importName relay nameOverride with
      | .error e => .error e
      | .ok name => RelayConfig.fromDict name relay

/-- mirrors src/wh/relay/config.py:215-235 -/
def RelayConfigManager.importRelay {Y : Yaml} (m : RelayConfigManager Y) (data : Json)
    (nameOverride : Option String) (setDefault : Bool) :
    RelayConfigManager Y × Except Raised RelayConfig :=
  match readExport data nameOverride with
  | .error e => (m, .error e)
  | .ok relay => m.addRelay relay setDefault

/-! ## Calls -/

/-- `None`, or the text. -/
def optionalText : Option String → Json
  | none => .null
  | some s => .str s

inductive Call
  | addRelay (name mailboxUrl transitUrl : String) (namespaceKey description : Option String)
      (setDefault : Bool)
  | removeRelay (name : String)
  | setDefault (name : String)
  | exportRelay (name : String)
  | importRelay (data : Json) (nameOverride : Option String) (setDefault : Bool)

/-- The manager after a call, also after one that raises. -/
def RelayConfigManager.after {Y : Yaml} (m : RelayConfigManager Y) : Call → RelayConfigManager Y
  | .addRelay name mailboxUrl transitUrl namespaceKey description setDefault =>
    (m.addRelay ⟨name, .str mailboxUrl, .str transitUrl, optionalText namespaceKey,
      optionalText description⟩ setDefault).1
  | .removeRelay name => (m.removeRelay name).1
  | .setDefault name => (m.setDefault name).1
  | .exportRelay name => (m.exportRelay name).1
  | .importRelay data nameOverride setDefault => (m.importRelay data nameOverride setDefault).1

/-- Any calls, from no file on. -/
def system : LTS (RelayConfigManager Y) Call :=
  .ofStep (fun m => m = .new Y none) fun m c => some (m.after c)

variable {Y}

/-! ## Written and read -/

theorem lookup_none {es : Fields} {k : String} (h : k ∉ es.map Prod.fst) :
    Dict.lookup k es = none := by
  rw [← Option.not_isSome_iff_eq_none, Dict.lookup_isSome_iff]
  exact h

/-- Leaving out values of a dictionary leaves them out of what is looked up. -/
theorem lookup_filter (p : Json → Bool) (k : String) :
    ∀ {es : Fields}, (es.map Prod.fst).Nodup →
      Dict.lookup k (es.filter fun e => p e.2) = (Dict.lookup k es).filter p
  | [], _ => rfl
  | (k', v) :: es, hn => by
    rw [List.map_cons, List.nodup_cons] at hn
    have ih := lookup_filter p k hn.2
    by_cases hk : k' = k
    · subst hk
      have hnone := lookup_none hn.1
      rw [hnone] at ih
      cases hp : p v <;> simp [hp, Dict.lookup, Option.filter, ih]
    · cases hp : p v <;> simp [hp, Dict.lookup, hk, ih]

/-- Both addresses are set. -/
def RelayConfig.Addressed (r : RelayConfig) : Prop :=
  isNull r.mailboxUrl = false ∧ isNull r.transitUrl = false

theorem getD_filter_isNull (v : Json) :
    ((some v).filter fun v => !isNull v).getD .null = v := by
  cases v <;> rfl

theorem required_of_item {data : Json} {key : String} {v : Json}
    (h : item data key = (some v).filter fun v => !isNull v) :
    required data key = if isNull v then .error (.key key) else .ok v := by
  unfold required
  rw [h]
  cases v <;> rfl

/-- A relay is read from what it was written to if both addresses are set, and else not at
all. -/
theorem fromDict_toDict (r : RelayConfig) :
    RelayConfig.fromDict r.name (.obj r.toDict) = .ok r ∧ r.Addressed ∨
      (∃ e, RelayConfig.fromDict r.name (.obj r.toDict) = .error e) ∧ ¬r.Addressed := by
  have hnodup : ([("name", Json.str r.name), ("mailbox_url", r.mailboxUrl),
      ("transit_url", r.transitUrl), ("namespace_key", r.namespaceKey),
      ("description", r.description)].map Prod.fst).Nodup := by
    simp
  have hitem : ∀ k, item (.obj r.toDict) k = (Dict.lookup k [("name", Json.str r.name),
      ("mailbox_url", r.mailboxUrl), ("transit_url", r.transitUrl),
      ("namespace_key", r.namespaceKey), ("description", r.description)]).filter
        fun v => !isNull v :=
    fun k => lookup_filter (fun v => !isNull v) k hnodup
  have hkey : optional (.obj r.toDict) "namespace_key" = r.namespaceKey := by
    rw [optional, hitem]
    exact getD_filter_isNull r.namespaceKey
  have hdescription : optional (.obj r.toDict) "description" = r.description := by
    rw [optional, hitem]
    exact getD_filter_isNull r.description
  have hmailbox := required_of_item (hitem "mailbox_url")
  have htransit := required_of_item (hitem "transit_url")
  unfold RelayConfig.fromDict RelayConfig.Addressed
  rw [hkey, hdescription, hmailbox, htransit]
  cases isNull r.mailboxUrl with
  | true => exact .inr ⟨⟨_, rfl⟩, fun h => nomatch h.1⟩
  | false =>
    cases isNull r.transitUrl with
    | true => exact .inr ⟨⟨_, rfl⟩, fun h => nomatch h.2⟩
    | false => exact .inl ⟨rfl, rfl, rfl⟩

/-- The items of the file for the relays of `es`. -/
def items (es : List (String × RelayConfig)) : Fields :=
  es.map fun e => (e.1, .obj e.2.toDict)

theorem fromDict_of_addressed {r : RelayConfig} (h : r.Addressed) :
    RelayConfig.fromDict r.name (.obj r.toDict) = .ok r := by
  rcases fromDict_toDict r with ⟨hok, _⟩ | ⟨_, hnot⟩
  · exact hok
  · exact absurd h hnot

/-- Relays under their own names, new to those read so far, come after these. -/
theorem readRelays_items :
    ∀ {es : List (String × RelayConfig)} {relays : Dict String RelayConfig},
      (∀ e ∈ es, e.2.name = e.1 ∧ e.2.Addressed) → (es.map Prod.fst).Nodup →
      (∀ e ∈ es, e.1 ∉ relays.entries.map Prod.fst) →
      ∃ all, readRelays (items es) relays = .ok all ∧ all.entries = relays.entries ++ es
  | [], relays, _, _, _ => ⟨relays, rfl, (List.append_nil _).symm⟩
  | (name, r) :: es, relays, hes, hn, hnew => by
    rw [List.forall_mem_cons] at hes hnew
    rw [List.map_cons, List.nodup_cons] at hn
    obtain ⟨⟨hname, haddr⟩, hes⟩ := hes
    have hname : r.name = name := hname
    subst hname
    have hset : (relays.set r.name r).entries = relays.entries ++ [(r.name, r)] :=
      Dict.assign_of_notMem hnew.1 r
    have hnew' : ∀ e ∈ es, e.1 ∉ (relays.set r.name r).entries.map Prod.fst := by
      intro e he
      rw [hset, List.map_append, List.mem_append, not_or]
      refine ⟨hnew.2 e he, ?_⟩
      rw [List.map_singleton, List.mem_singleton]
      exact fun h => hn.1 (h ▸ List.mem_map_of_mem he)
    obtain ⟨all, hall, hentries⟩ := readRelays_items hes hn.2 hnew'
    refine ⟨all, ?_, ?_⟩
    · simp only [items, List.map_cons, readRelays, fromDict_of_addressed haddr]
      exact hall
    · rw [hentries, hset, List.append_assoc]
      rfl

/-- One relay without an address, and nothing is read. -/
theorem readRelays_fails {r : RelayConfig} (hr : ¬r.Addressed) :
    ∀ {es : List (String × RelayConfig)} {relays : Dict String RelayConfig},
      (r.name, r) ∈ es → ∃ e, readRelays (items es) relays = .error e
  | (name, q) :: es, relays, hmem => by
    simp only [items, List.map_cons, readRelays]
    cases hread : RelayConfig.fromDict name (.obj q.toDict) with
    | error e => exact ⟨e, rfl⟩
    | ok _ =>
      rcases List.mem_cons.mp hmem with heq | hmem
      · cases heq
        rcases fromDict_toDict r with ⟨_, haddr⟩ | ⟨⟨e, herr⟩, _⟩
        · exact absurd haddr hr
        · rw [hread] at herr
          cases herr
      · exact readRelays_fails hr hmem

/-! ## A sound configuration -/

/-- The public relay and the default one are there, each relay under its own name. -/
structure Sound (c : RelayConfigFile) : Prop where
  hasPublic : (c.relays.get? "public").isSome = true
  hasDefault : (c.relays.get? c.default).isSome = true
  named : ∀ n r, c.relays.get? n = some r → r.name = n

def Ready (c : RelayConfigFile) : Prop := ∀ n r, c.relays.get? n = some r → r.Addressed

theorem read_dump (c : RelayConfigFile) :
    (⟨none, some (Y.dump c.toDict)⟩ : RelayConfigManager Y).read =
      match readRelays (items c.relays.entries) Dict.empty with
      | .error e => .error e
      | .ok relays => .ok (.new c.default relays) := by
  simp only [RelayConfigManager.read, Y.load_dump]
  rfl

/-- What is written is read as what it was. -/
theorem loaded_stored {c : RelayConfigFile} (hs : Sound c) (hr : Ready c) :
    (RelayConfigManager.new Y (some (Y.dump c.toDict))).load = .ok c := by
  have hes : ∀ e ∈ c.relays.entries, e.2.name = e.1 ∧ e.2.Addressed := by
    intro e he
    have hget := Dict.mem_entries.mp he
    exact ⟨hs.named e.1 e.2 hget, hr e.1 e.2 hget⟩
  obtain ⟨relays, hread, hentries⟩ : ∃ all,
      readRelays (items c.relays.entries) Dict.empty = .ok all ∧ all.entries = c.relays.entries :=
    readRelays_items hes c.relays.nodup fun _ _ => List.not_mem_nil
  have hrelays : relays = c.relays := Dict.ext hentries
  refine (read_dump c).trans ?_
  rw [hread, hrelays]
  simp [RelayConfigFile.new, hs.hasPublic]

theorem not_loaded {c : RelayConfigFile} (hs : Sound c) (hr : ¬Ready c) :
    ∃ e, (RelayConfigManager.new Y (some (Y.dump c.toDict))).load = .error e := by
  simp only [Ready, not_forall] at hr
  obtain ⟨n, r, hget, haddr⟩ := hr
  obtain rfl := hs.named n r hget
  obtain ⟨e, herr⟩ : ∃ e, readRelays (items c.relays.entries) Dict.empty = .error e :=
    readRelays_fails haddr (Dict.mem_entries.mpr hget)
  refine ⟨e, (read_dump c).trans ?_⟩
  rw [herr]

/-! ## Runs -/

/-- The configuration without a file. -/
def initial : RelayConfigFile := .new "public" Dict.empty

/-- The configuration that the manager works with, loaded or not. -/
def RelayConfigManager.current (m : RelayConfigManager Y) : RelayConfigFile :=
  m.config.getD initial

/-- Public and default relay are there, every relay is under its own name, and a new manager
on the same directory loads the same configuration. -/
def Usable (m : RelayConfigManager Y) : Prop :=
  ∃ c, m.load = .ok c ∧ (c.relays.get? "public").isSome = true ∧
    (∃ r, c.relays.get? c.default = some r ∧ m.getDefaultRelay.2 = .ok r) ∧
    (∀ n r, c.relays.get? n = some r → r.name = n) ∧
    (RelayConfigManager.new Y m.file).load = .ok c

/-- Memory and file agree. -/
structure Inv (m : RelayConfigManager Y) : Prop where
  unloaded : m.config = none → m.file = none
  sound : Sound m.current
  stored : m.file = none ∧ m.current = initial ∨ m.file = some (Y.dump m.current.toDict)

theorem sound_initial : Sound initial := by
  have hget : ∀ n, initial.relays.get? n = if "public" = n then some publicRelay else none :=
    fun n => (Dict.get?_set _ _ _ _).trans (by simp)
  refine ⟨rfl, rfl, fun n r hr => ?_⟩
  rw [hget] at hr
  split at hr
  · rename_i hn
    rw [Option.some.injEq] at hr
    rw [← hr, ← hn]
    rfl
  · cases hr

theorem ready_initial : Ready initial := by
  have hget : ∀ n, initial.relays.get? n = if "public" = n then some publicRelay else none :=
    fun n => (Dict.get?_set _ _ _ _).trans (by simp)
  intro n r hr
  rw [hget] at hr
  split at hr
  · rw [Option.some.injEq] at hr
    exact hr ▸ ⟨rfl, rfl⟩
  · cases hr

theorem load_current {m : RelayConfigManager Y} (h : Inv m) : m.load = .ok m.current := by
  unfold RelayConfigManager.load RelayConfigManager.current
  cases hc : m.config with
  | some c => rfl
  | none =>
    unfold RelayConfigManager.read
    rw [h.unloaded hc]
    rfl

theorem usable_iff {m : RelayConfigManager Y} (h : Inv m) : Usable m ↔ Ready m.current := by
  obtain ⟨r, hr⟩ := Option.isSome_iff_exists.mp h.sound.hasDefault
  have hdefault : m.getDefaultRelay.2 = .ok r := by
    simp only [RelayConfigManager.getDefaultRelay, RelayConfigManager.loading, load_current h, hr]
  have hnew : (RelayConfigManager.new Y m.file).load = .ok m.current ↔ Ready m.current := by
    rcases h.stored with ⟨hfile, hinit⟩ | hfile
    · rw [hfile, hinit]
      exact iff_of_true rfl ready_initial
    · rw [hfile]
      constructor
      · intro hload
        by_contra hnot
        obtain ⟨e, herr⟩ := not_loaded (Y := Y) h.sound hnot
        rw [hload] at herr
        cases herr
      · exact loaded_stored h.sound
  unfold Usable
  rw [load_current h]
  constructor
  · rintro ⟨c, hc, _, _, _, hload⟩
    cases hc
    exact hnew.mp hload
  · intro hready
    exact ⟨m.current, rfl, h.sound.hasPublic, ⟨r, hr, hdefault⟩, h.sound.named,
      hnew.mpr hready⟩

/-- What a call does to the configuration. -/
inductive Edits (c : RelayConfigFile) : RelayConfigFile → Prop
  | stored (r : RelayConfig) (setDefault : Bool) :
    Edits c ⟨if setDefault then r.name else c.default, c.relays.set r.name r⟩
  | removed (name : String) (h : name ≠ "public") :
    Edits c ⟨if c.default = name then "public" else c.default, c.relays.del name⟩
  | chosen (name : String) (h : (c.relays.get? name).isSome = true) :
    Edits c ⟨name, c.relays⟩

theorem Edits.sound {c c' : RelayConfigFile} (h : Sound c) (he : Edits c c') : Sound c' := by
  cases he with
  | stored r setDefault =>
    have hget : ∀ n, (c.relays.set r.name r).get? n =
        if r.name = n then some r else c.relays.get? n := fun n => Dict.get?_set _ _ _ _
    have hkept : ∀ n, (c.relays.get? n).isSome = true →
        ((c.relays.set r.name r).get? n).isSome = true := by
      intro n hn
      rw [hget]
      split
      · rfl
      · exact hn
    refine ⟨hkept _ h.hasPublic, ?_, ?_⟩
    · cases setDefault with
      | true => simp
      | false => exact hkept _ h.hasDefault
    · intro n q hq
      rw [hget] at hq
      split at hq
      · rename_i hn
        rw [Option.some.injEq] at hq
        rw [← hq, hn]
      · exact h.named n q hq
  | removed name hne =>
    have hkept : ∀ n, name ≠ n → (c.relays.get? n).isSome = true →
        ((c.relays.del name).get? n).isSome = true := by
      intro n hn hsome
      rwa [Dict.get?_del_ne _ hn]
    refine ⟨hkept _ hne h.hasPublic, ?_, ?_⟩
    · dsimp only
      split
      · exact hkept _ hne h.hasPublic
      · rename_i hdefault
        exact hkept _ (Ne.symm hdefault) h.hasDefault
    · intro n q hq
      rw [Dict.get?_del] at hq
      split at hq
      · cases hq
      · exact h.named n q hq
  | chosen name hname => exact ⟨h.hasPublic, hname, h.named⟩

theorem ready_stored_iff {c : RelayConfigFile} (h : Ready c) (r : RelayConfig)
    (default : String) : Ready ⟨default, c.relays.set r.name r⟩ ↔ r.Addressed := by
  constructor
  · intro hready
    exact hready r.name r (Dict.get?_set_self _ _ _)
  · intro haddr n q hq
    rw [Dict.get?_set] at hq
    split at hq
    · rw [Option.some.injEq] at hq
      exact hq ▸ haddr
    · exact h n q hq

theorem ready_removed {c : RelayConfigFile} (h : Ready c) (name default : String) :
    Ready ⟨default, c.relays.del name⟩ := by
  intro n q hq
  rw [Dict.get?_del] at hq
  split at hq
  · cases hq
  · exact h n q hq

/-- The relay that a call stores. -/
def Call.relay : Call → Option RelayConfig
  | .addRelay name mailboxUrl transitUrl namespaceKey description _ =>
    some ⟨name, .str mailboxUrl, .str transitUrl, optionalText namespaceKey,
      optionalText description⟩
  | .importRelay data nameOverride _ => (readExport data nameOverride).toOption
  | _ => none

/-- A call leaves the configuration as it is, or makes an edit of it and writes the file. A
relay is stored exactly when the call has one. -/
def Follows (m : RelayConfigManager Y) (c : Call) (m' : RelayConfigManager Y) : Prop :=
  (m'.current = m.current ∧ m'.file = m.file ∧ (m'.config = none → m.config = none) ∧
      c.relay = none) ∨
    ∃ c', m' = m.save c' ∧ Edits m.current c' ∧
      match c.relay with
      | some r => ∃ default, c' = ⟨default, m.current.relays.set r.name r⟩
      | none => Ready m.current → Ready c'

theorem follows_kept {m : RelayConfigManager Y} {c : Call} (h : c.relay = none) :
    Follows m c { m with config := some m.current } := by
  refine .inl ⟨rfl, rfl, ?_, h⟩
  intro hnone
  cases hnone

theorem follows_stored {m : RelayConfigManager Y} (h : Inv m) {c : Call} {r : RelayConfig}
    (hc : c.relay = some r) (setDefault : Bool) :
    Follows m c (m.addRelay r setDefault).1 := by
  have hadd : (m.addRelay r setDefault).1 = m.save
      ⟨if setDefault then r.name else m.current.default, m.current.relays.set r.name r⟩ := by
    simp only [RelayConfigManager.addRelay, RelayConfigManager.loading, load_current h]
  rw [hadd]
  refine .inr ⟨_, rfl, .stored r setDefault, ?_⟩
  rw [hc]
  exact ⟨_, rfl⟩

theorem follows_after {m : RelayConfigManager Y} (h : Inv m) (c : Call) :
    Follows m c (m.after c) := by
  cases c with
  | addRelay name mailboxUrl transitUrl namespaceKey description setDefault =>
    exact follows_stored h rfl setDefault
  | importRelay data nameOverride setDefault =>
    simp only [RelayConfigManager.after, RelayConfigManager.importRelay]
    cases hread : readExport data nameOverride with
    | error e =>
      have hnone : (Call.importRelay data nameOverride setDefault).relay = none := by
        simp only [Call.relay, hread]
        rfl
      exact .inl ⟨rfl, rfl, id, hnone⟩
    | ok r =>
      have hsome : (Call.importRelay data nameOverride setDefault).relay = some r := by
        simp only [Call.relay, hread]
        rfl
      exact follows_stored h hsome setDefault
  | removeRelay name =>
    simp only [RelayConfigManager.after, RelayConfigManager.removeRelay,
      RelayConfigManager.loading, load_current h]
    by_cases hpublic : name = "public"
    · simp only [hpublic, if_true]
      exact follows_kept rfl
    · by_cases hthere : m.current.relays.contains name = true
      · simp only [hpublic, hthere, Bool.not_true, Bool.false_eq_true, if_false]
        exact .inr ⟨_, rfl, .removed name hpublic, fun hr => ready_removed hr name _⟩
      · rw [Bool.not_eq_true] at hthere
        simp only [hpublic, hthere, Bool.not_false, if_true, if_false]
        exact follows_kept rfl
  | setDefault name =>
    simp only [RelayConfigManager.after, RelayConfigManager.setDefault,
      RelayConfigManager.loading, load_current h]
    by_cases hthere : m.current.relays.contains name = true
    · simp only [hthere, Bool.not_true, Bool.false_eq_true, if_false]
      exact .inr ⟨_, rfl, .chosen name hthere, fun hr => hr⟩
    · rw [Bool.not_eq_true] at hthere
      simp only [hthere, Bool.not_false, if_true]
      exact follows_kept rfl
  | exportRelay name =>
    simp only [RelayConfigManager.after, RelayConfigManager.exportRelay,
      RelayConfigManager.loading, load_current h]
    cases m.current.relays.get? name <;> exact follows_kept rfl

theorem Inv.follows {m m' : RelayConfigManager Y} {c : Call} (h : Inv m)
    (hf : Follows m c m') : Inv m' := by
  rcases hf with ⟨hcurrent, hfile, hconfig, _⟩ | ⟨c', rfl, hedit, _⟩
  · refine ⟨?_, hcurrent ▸ h.sound, ?_⟩
    · exact fun hnone => hfile.trans (h.unloaded (hconfig hnone))
    · rw [hcurrent, hfile]
      exact h.stored
  · refine ⟨?_, Edits.sound h.sound hedit, .inr rfl⟩
    intro hnone
    cases hnone

/-- An import that succeeds has both addresses. -/
def Meets (_ : RelayConfigManager Y) : Call → Prop
  | .importRelay data nameOverride _ =>
    ∀ r, readExport data nameOverride = .ok r → r.Addressed
  | _ => True

theorem meets_iff (m : RelayConfigManager Y) (c : Call) :
    Meets m c ↔ ∀ r, c.relay = some r → r.Addressed := by
  cases c with
  | addRelay =>
    refine iff_of_true trivial fun r hr => ?_
    cases hr
    exact ⟨rfl, rfl⟩
  | importRelay data nameOverride setDefault =>
    simp only [Meets, Call.relay]
    cases readExport data nameOverride with
    | error e => simp [Except.toOption]
    | ok r => simp [Except.toOption]
  | removeRelay => simp [Meets, Call.relay]
  | setDefault => simp [Meets, Call.relay]
  | exportRelay => simp [Meets, Call.relay]

theorem ready_follows_iff {m m' : RelayConfigManager Y} {c : Call} (hr : Ready m.current)
    (hf : Follows m c m') : Ready m'.current ↔ Meets m c := by
  rw [meets_iff]
  rcases hf with ⟨hcurrent, _, _, hnone⟩ | ⟨c', rfl, _, hkind⟩
  · rw [hcurrent, hnone]
    simp [hr]
  · have hcurrent : (m.save c').current = c' := rfl
    rw [hcurrent]
    cases hrelay : c.relay with
    | none =>
      rw [hrelay] at hkind
      simp [hkind hr]
    | some r =>
      rw [hrelay] at hkind
      obtain ⟨default, rfl⟩ := hkind
      rw [ready_stored_iff hr]
      simp

theorem inv_new : Inv (RelayConfigManager.new Y none) :=
  ⟨fun _ => rfl, sound_initial, .inl ⟨rfl, rfl⟩⟩

/-- **The configuration is always usable**, along a whole run, exactly when no import that
succeeds stores a relay without an address. -/
theorem always_usable_iff {calls : List Call} {m : RelayConfigManager Y}
    (hr : (system Y).Run (.new Y none) calls m) :
    (∀ done m', done <+: calls → (system Y).Run (.new Y none) done m' → Usable m') ↔
      ((system Y).restrict Meets).Run (.new Y none) calls m := by
  have hstep : ∀ (m : RelayConfigManager Y) c m', Inv m → some (m.after c) = some m' →
      Inv m' := by
    intro m c m' hm heq
    cases heq
    exact hm.follows (follows_after hm c)
  refine LTS.Run.prefixes_iff hstep ?_ hr inv_new ((usable_iff inv_new).mpr ready_initial)
  intro m c m' hm hu heq
  cases heq
  have hf := follows_after hm c
  rw [usable_iff (hm.follows hf)]
  exact ready_follows_iff ((usable_iff hm).mp hu) hf

/-! ## Imports -/

/-- An exported relay with this mailbox. -/
def exported (mailboxUrl : Json) : Json :=
  .obj [("version", .int 1), ("relay", .obj [("name", .str "office"),
    ("mailbox_url", mailboxUrl), ("transit_url", .str "tcp:transit.example.com:4001")])]

def imported (mailboxUrl : Json) : RelayConfigManager Yaml.plain :=
  (RelayConfigManager.new Yaml.plain none).after (.importRelay (exported mailboxUrl) none true)

theorem run_import (mailboxUrl : Json) :
    (system Yaml.plain).Run (.new Yaml.plain none) [.importRelay (exported mailboxUrl) none true]
      (imported mailboxUrl) :=
  .single rfl

/-- The relay of the office, imported and made the default. -/
theorem always_usable_office :
    Usable (imported (.str "ws://relay.example.com/v1")) := by
  have hmeets : ((system Yaml.plain).restrict Meets).Run (.new Yaml.plain none)
      [.importRelay (exported (.str "ws://relay.example.com/v1")) none true]
      (imported (.str "ws://relay.example.com/v1")) := by
    refine .single ⟨?_, rfl⟩
    intro r hr
    have hread : readExport (exported (.str "ws://relay.example.com/v1")) none =
        .ok ⟨"office", .str "ws://relay.example.com/v1",
          .str "tcp:transit.example.com:4001", .null, .null⟩ := rfl
    rw [hread] at hr
    cases hr
    exact ⟨rfl, rfl⟩
  exact (always_usable_iff (run_import _)).mpr hmeets _ _ (List.prefix_refl _) (run_import _)

/-- The office relay without a mailbox is taken over, and the file is not read again. -/
theorem import_unreadable :
    (system Yaml.plain).Run (.new Yaml.plain none) [.importRelay (exported .null) none true]
      (imported .null) ∧
    ((imported .null).load.toOption.map RelayConfigFile.default) = some "office" ∧
    (RelayConfigManager.new Yaml.plain (imported .null).file).load =
      .error (.key "mailbox_url") ∧
    ¬Usable (imported .null) := by
  have hload : (RelayConfigManager.new Yaml.plain (imported .null).file).load =
      .error (.key "mailbox_url") := rfl
  refine ⟨run_import .null, rfl, hload, ?_⟩
  rintro ⟨c, _, _, _, _, hnew⟩
  rw [hload] at hnew
  cases hnew

end Wormhole.L4.Relays
