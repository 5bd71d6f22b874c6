import Wormhole.L4App.RelayConfig
import Wormhole.L4App.RelayFallback

/-!
# The relay file and the relays to fall back on

`RelayConfigManager` takes what `relays.yaml` has, whatever it is; `WormholeManager` goes
through relays whose addresses are texts. A file with texts in it is read alike by both.

* `fromDict_json`: the relays to fall back on are those of the configuration.
* `read_json`: the same from the file on, and without one.
-/
namespace Wormhole.L4.Fallback
open Wormhole.L1

/-! ## A file with texts -/

def textOr (s : Option String) : Json := (s.map Json.str).getD .null

/-- The item, if there is one. -/
def entry (key : String) (s : Option String) : Fields := (s.map fun t => (key, Json.str t)).toList

def RelayData.json (d : RelayData) : Json :=
  .obj (entry "mailbox_url" d.mailboxUrl ++ (entry "transit_url" d.transitUrl ++
    (entry "namespace_key" d.namespaceKey ++ entry "description" d.description)))

def RelayFile.json (f : RelayFile) : Json :=
  .obj (entry "default" f.default ++
    [("relays", .obj (f.relays.entries.map fun e => (e.1, e.2.json)))])

def RelayConfig.untyped (r : RelayConfig) : Relays.RelayConfig :=
  ⟨r.name, .str r.mailboxUrl, .str r.transitUrl, textOr r.namespaceKey, textOr r.description⟩

def RelayConfigFile.untyped (c : RelayConfigFile) : Relays.RelayConfigFile :=
  ⟨c.default, c.relays.dict.map RelayConfig.untyped⟩

/-! ## One relay -/

theorem lookup_entry_ne {key key' : String} (h : key' ≠ key) (s : Option String)
    (fields : Fields) : Dict.lookup key (entry key' s ++ fields) = Dict.lookup key fields := by
  cases s with
  | none => rfl
  | some t => exact if_neg h

theorem lookup_entry (key : String) (s : Option String) {fields : Fields}
    (h : Dict.lookup key fields = none) :
    Dict.lookup key (entry key s ++ fields) = s.map Json.str := by
  cases s with
  | none => exact h
  | some t => exact if_pos rfl

theorem lookup_entry_last (key key' : String) (s : Option String) (h : key' ≠ key) :
    Dict.lookup key (entry key' s) = none := by
  rw [← List.append_nil (entry key' s), lookup_entry_ne h]
  rfl

theorem item_json (d : RelayData) :
    Wns.item d.json "mailbox_url" = d.mailboxUrl.map Json.str ∧
      Wns.item d.json "transit_url" = d.transitUrl.map Json.str ∧
      Wns.item d.json "namespace_key" = d.namespaceKey.map Json.str ∧
      Wns.item d.json "description" = d.description.map Json.str := by
  simp only [Wns.item, RelayData.json]
  refine ⟨?_, ?_, ?_, ?_⟩
  · apply lookup_entry
    rw [lookup_entry_ne (by decide), lookup_entry_ne (by decide)]
    exact lookup_entry_last _ _ _ (by decide)
  · rw [lookup_entry_ne (by decide)]
    apply lookup_entry
    rw [lookup_entry_ne (by decide)]
    exact lookup_entry_last _ _ _ (by decide)
  · rw [lookup_entry_ne (by decide), lookup_entry_ne (by decide)]
    exact lookup_entry _ _ (lookup_entry_last _ _ _ (by decide))
  · rw [lookup_entry_ne (by decide), lookup_entry_ne (by decide), lookup_entry_ne (by decide),
      ← List.append_nil (entry "description" _)]
    exact lookup_entry _ _ rfl

/-- A relay is read by both or by neither. -/
theorem relay_json (name : String) (d : RelayData) :
    (Relays.RelayConfig.fromDict name d.json).toOption =
      (RelayConfig.fromDict name d).map RelayConfig.untyped := by
  obtain ⟨hmailbox, htransit, hkey, hdescription⟩ := item_json d
  unfold Relays.RelayConfig.fromDict RelayConfig.fromDict Relays.required Relays.optional
  rw [hmailbox, htransit, hkey, hdescription]
  cases d.mailboxUrl with
  | none => rfl
  | some mailboxUrl =>
    cases d.transitUrl with
    | none => rfl
    | some transitUrl => rfl

/-! ## The file -/

theorem relays_json (es : List (String × RelayData)) (relays : Relays) :
    (Relays.readRelays (es.map fun e => (e.1, e.2.json))
        (relays.dict.map RelayConfig.untyped)).toOption =
      (es.foldlM (fun relays e => (RelayConfig.fromDict e.1 e.2).map relays.add) relays).map
        fun relays => relays.dict.map RelayConfig.untyped := by
  induction es generalizing relays with
  | nil => rfl
  | cons e es ih =>
    have hrelay := relay_json e.1 e.2
    rw [List.map_cons, Relays.readRelays, List.foldlM_cons]
    cases hr : RelayConfig.fromDict e.1 e.2 with
    | none =>
      rw [hr] at hrelay
      cases hread : Relays.RelayConfig.fromDict e.1 e.2.json with
      | error err => rfl
      | ok r =>
        rw [hread] at hrelay
        cases hrelay
    | some r =>
      rw [hr] at hrelay
      cases hread : Relays.RelayConfig.fromDict e.1 e.2.json with
      | error err =>
        rw [hread] at hrelay
        cases hrelay
      | ok r' =>
        rw [hread] at hrelay
        cases hrelay
        have hname : r.name = e.1 := by
          obtain ⟨mailboxUrl, -, hr⟩ := Option.bind_eq_some_iff.mp hr
          obtain ⟨transitUrl, -, hr⟩ := Option.map_eq_some_iff.mp hr
          rw [← hr]
        have hset : (relays.dict.map RelayConfig.untyped).set e.1 r.untyped =
            (relays.add r).dict.map RelayConfig.untyped := by
          rw [Relays.add, Dict.map_set, hname]
        dsimp only
        rw [hset, ih]
        rfl

theorem new_untyped (default : String) (relays : Relays) :
    Relays.RelayConfigFile.new default (relays.dict.map RelayConfig.untyped) =
      (RelayConfigFile.init default relays).untyped := by
  have hcontains : (relays.dict.map RelayConfig.untyped).contains "public" =
      relays.dict.contains "public" := by
    unfold Dict.contains
    rw [Dict.get?_map, Option.isSome_map]
  unfold Relays.RelayConfigFile.new RelayConfigFile.init
  rw [hcontains]
  split
  · rfl
  · exact congrArg (Relays.RelayConfigFile.mk default)
      (Dict.map_set RelayConfig.untyped relays.dict "public" publicRelay).symm

/-- **The relays to fall back on are those of the configuration**: a file with texts is read
by both or by neither, and they have the same default and relays in the same order. -/
theorem fromDict_json (f : RelayFile) :
    (Relays.RelayConfigFile.fromDict f.json).toOption =
      (RelayConfigFile.fromDict f).map RelayConfigFile.untyped := by
  have hrelays : Wns.item f.json "relays" =
      some (.obj (f.relays.entries.map fun e => (e.1, e.2.json))) := by
    simp only [Wns.item, RelayFile.json]
    rw [lookup_entry_ne (by decide)]
    exact if_pos rfl
  have hdefault : Wns.textItem f.json "default" = f.default := by
    have hlast : Dict.lookup "default"
        [("relays", Json.obj (f.relays.entries.map fun e => (e.1, e.2.json)))] = none :=
      if_neg (by decide)
    simp only [Wns.textItem, Wns.item, RelayFile.json]
    rw [lookup_entry "default" f.default hlast]
    cases f.default <;> rfl
  have hread := relays_json f.relays.entries .empty
  unfold Relays.RelayConfigFile.fromDict RelayConfigFile.fromDict
  rw [hrelays, hdefault, Option.map_map]
  change (Relays.readRelays (f.relays.entries.map fun e => (e.1, e.2.json)) Dict.empty).toOption =
    _ at hread
  dsimp only [Option.getD_some]
  cases hr : Relays.readRelays (f.relays.entries.map fun e => (e.1, e.2.json)) Dict.empty with
  | error e =>
    rw [hr] at hread
    rw [Option.map_eq_none_iff.mp hread.symm]
    rfl
  | ok relays =>
    rw [hr] at hread
    obtain ⟨typed, htyped, hrelays⟩ := Option.map_eq_some_iff.mp hread.symm
    rw [htyped, ← hrelays]
    exact congrArg some (new_untyped _ typed)

/-- The same from the file on, and without one. -/
theorem read_json {Y : Yaml} (m : Relays.RelayConfigManager Y) (file : Option RelayFile)
    (hfile : m.file.map Y.load = file.map fun f => some f.json) :
    m.read.toOption = (load file).map RelayConfigFile.untyped := by
  unfold Relays.RelayConfigManager.read load
  cases hm : m.file with
  | none =>
    rw [hm] at hfile
    rw [Option.map_eq_none_iff.mp hfile.symm]
    exact congrArg some (new_untyped "public" .empty)
  | some text =>
    rw [hm, Option.map_some] at hfile
    obtain ⟨f, hf, hload⟩ := Option.map_eq_some_iff.mp hfile.symm
    have htruthy : f.json.truthy = true := by
      unfold RelayFile.json
      cases f.default <;> rfl
    rw [hf]
    dsimp only
    rw [← hload]
    dsimp only
    rw [htruthy, if_pos rfl]
    exact fromDict_json f

end Wormhole.L4.Fallback
