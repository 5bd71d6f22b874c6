import Mathlib.Data.List.Perm.Basic
import Wormhole.Core.Dict
import Wormhole.Core.LTS
import Wormhole.L4App.Policy

/-!
# Relay fallback

The configured relays of `src/wh/relay/config.py`, and how `WormholeManager` of
`src/wh/core/wormhole_manager.py` goes through them. What happens in an attempt (names,
the network, timeouts, closing) is given by how it ends. Status messages, code lengths
and what is done over a connection are left out.

* `prioritized`: the default relay comes first and the others follow in the order of the
  file; where the first one has an empty URL, the built-in one is taken
  (`emptyUrl_replaced`).
* `aligned_reachable`: the URLs in use are those of the current entry, in every state.
* `fellBack`: `establish_with_fallback` tries the entries from the current one on, each
  once, and stops at the first success.
* `FellBack.raises_iff`: it raises exactly when all of them fail.
-/
namespace Wormhole.L4.Fallback
open Wormhole.L4.Enterprise (named)

/-! ## The configuration -/

/-- mirrors src/wh/relay/config.py:22-30 -/
structure RelayConfig where
  name : String
  mailboxUrl : String
  transitUrl : String
  namespaceKey : Option String := none
  description : Option String := none
deriving DecidableEq

/-- mirrors src/wh/relay/config.py:18-19 -/
def DEFAULT_MAILBOX_URL : String := "ws://relay.magic-wormhole.io:4000/v1"

def DEFAULT_TRANSIT_URL : String := "tcp:transit.magic-wormhole.io:4001"

def publicRelay : RelayConfig where
  name := "public"
  mailboxUrl := DEFAULT_MAILBOX_URL
  transitUrl := DEFAULT_TRANSIT_URL
  description := some "Official Magic Wormhole relay"

/-- The relays by name: each is filed under its own. -/
structure Relays where
  dict : Dict String RelayConfig
  filed : ∀ k r, dict.get? k = some r → r.name = k

def Relays.empty : Relays := ⟨.empty, fun _ _ h => nomatch h⟩

def Relays.add (relays : Relays) (relay : RelayConfig) : Relays where
  dict := relays.dict.set relay.name relay
  filed k r h := by
    rw [Dict.get?_set] at h
    split at h
    · rename_i hk
      cases h
      exact hk
    · exact relays.filed k r h

/-- What the file says of one relay. -/
structure RelayData where
  mailboxUrl : Option String
  transitUrl : Option String
  namespaceKey : Option String := none
  description : Option String := none

/-- `none`: a URL is missing.
mirrors src/wh/relay/config.py:37-46 -/
def RelayConfig.fromDict (name : String) (data : RelayData) : Option RelayConfig :=
  data.mailboxUrl.bind fun mailboxUrl => data.transitUrl.map fun transitUrl =>
    { name, mailboxUrl, transitUrl, namespaceKey := data.namespaceKey,
      description := data.description }

/-- There is always a relay called `public`. -/
structure RelayConfigFile where
  default : String
  relays : Relays
  hasPublic : relays.dict.contains "public" = true

/-- mirrors src/wh/relay/config.py:49-64 -/
def RelayConfigFile.init (default : String) (relays : Relays) : RelayConfigFile :=
  if h : relays.dict.contains "public" then ⟨default, relays, h⟩
  else ⟨default, relays.add publicRelay, by
    unfold Relays.add Dict.contains
    rw [Dict.get?_set, if_pos (show publicRelay.name = "public" from rfl)]
    rfl⟩

/-- The file as it was read: the default, and the relays in their order. -/
structure RelayFile where
  default : Option String
  relays : Dict String RelayData

/-- mirrors src/wh/relay/config.py:73-84 -/
def RelayConfigFile.fromDict (file : RelayFile) : Option RelayConfigFile :=
  (file.relays.entries.foldlM (fun relays e => (RelayConfig.fromDict e.1 e.2).map relays.add)
    Relays.empty).map (.init (file.default.getD "public"))

/-- Without a file there is the public relay.
mirrors src/wh/relay/config.py:101-113 -/
def load (file : Option RelayFile) : Option RelayConfigFile :=
  match file with
  | some file => RelayConfigFile.fromDict file
  | none => some (.init "public" .empty)

/-- mirrors src/wh/relay/config.py:199-202 -/
def RelayConfigFile.listRelays (config : RelayConfigFile) : List RelayConfig :=
  config.relays.dict.values

theorem Relays.names_nodup (relays : Relays) :
    (relays.dict.values.map RelayConfig.name).Nodup := by
  have hkeys : relays.dict.values.map RelayConfig.name = relays.dict.entries.map Prod.fst := by
    unfold Dict.values
    rw [List.map_map]
    refine List.map_congr_left fun e he => ?_
    exact relays.filed e.1 e.2 (Dict.mem_entries.mp he)
  rw [hkeys]
  exact relays.dict.nodup

theorem listRelays_ne_nil (config : RelayConfigFile) : config.listRelays ≠ [] := by
  intro h
  have hpublic := config.hasPublic
  unfold Dict.contains at hpublic
  obtain ⟨r, hr⟩ := Option.isSome_iff_exists.mp hpublic
  have hmem : r ∈ config.listRelays :=
    List.mem_map.mpr ⟨_, Dict.mem_entries.mpr hr, rfl⟩
  rw [h] at hmem
  cases hmem

/-! ## The order of the relays -/

/-- A mailbox URL and a transit URL. -/
abbrev Relay := String × String

def RelayConfig.urls (r : RelayConfig) : Relay := (r.mailboxUrl, r.transitUrl)

def DEFAULT_RELAY : String := "wss://relay.magic-wormhole.io/v1"

def DEFAULT_TRANSIT_RELAY : String := "tcp:transit.magic-wormhole.io:4001"

/-- One turn of the loop over the relays.
mirrors src/wh/core/wormhole_manager.py:124-129 -/
def pick (default : String) (p : Option Relay × List Relay) (r : RelayConfig) :
    Option Relay × List Relay :=
  if r.name = default then (some r.urls, p.2) else (p.1, p.2 ++ [r.urls])

/-- The relay to begin with, and the others.
mirrors src/wh/core/wormhole_manager.py:120-138 -/
def priority (config : RelayConfigFile) : Relay × List Relay :=
  match config.listRelays.foldl (pick config.default) (none, []), config.listRelays with
  | (some first, rest), _ => (first, rest)
  | (none, _), r :: relays => (r.urls, relays.map RelayConfig.urls)
  | (none, rest), [] => ((DEFAULT_RELAY, DEFAULT_TRANSIT_RELAY), rest)

/-! ## The manager -/

/-- What `create` was called with. -/
structure Created where
  appid : String
  relayUrl : String
  dilation : Bool
deriving DecidableEq

/-- `Versions` are what a peer advertises. -/
structure WormholeManager (Versions : Type) where
  appid : String
  relayUrl : String
  transitRelay : String
  enableDilation : Bool
  relayList : List Relay
  currentRelayIndex : Nat
  wormhole : Option Created
  code : Option String
  wnsAddress : Option String
  versions : Option Versions

namespace WormholeManager

variable {Versions : Type}

/-- An empty argument counts as missing.
mirrors src/wh/core/wormhole_manager.py:49-90 -/
def init (appid relayUrl transitRelay : Option String) (fallbackRelays : List Relay)
    (enableDilation : Bool) : WormholeManager Versions where
  appid := (named appid).getD "wh.tools/v1"
  relayUrl := (named relayUrl).getD DEFAULT_RELAY
  transitRelay := (named transitRelay).getD DEFAULT_TRANSIT_RELAY
  enableDilation := enableDilation
  relayList := ((named relayUrl).getD DEFAULT_RELAY,
    (named transitRelay).getD DEFAULT_TRANSIT_RELAY) :: fallbackRelays
  currentRelayIndex := 0
  wormhole := none
  code := none
  wnsAddress := none
  versions := none

/-- mirrors src/wh/core/wormhole_manager.py:92-147 -/
def fromRelayConfig (appid : Option String) (config : RelayConfigFile) :
    WormholeManager Versions :=
  init appid (some (priority config).1.1) (some (priority config).1.2) (priority config).2 true

/-- The relay that the URLs in use name. -/
def relay (s : WormholeManager Versions) : Relay := (s.relayUrl, s.transitRelay)

/-- mirrors src/wh/core/wormhole_manager.py:158-172 -/
def tryNextRelay (s : WormholeManager Versions) : Option (WormholeManager Versions) :=
  if h : s.currentRelayIndex + 1 < s.relayList.length then
    some { s with
      currentRelayIndex := s.currentRelayIndex + 1
      relayUrl := s.relayList[s.currentRelayIndex + 1].1
      transitRelay := s.relayList[s.currentRelayIndex + 1].2 }
  else none

/-- How setting the code ends: there is no code or no wormhole for it, `set_code` raises, or
it is set. The address is that of a name that is a WNS address or an alias of one. -/
inductive CodeSet
  | unresolved (wnsAddress : Option String) (error : String)
  | refused (wnsAddress : Option String) (error : String)
  | set (wnsAddress : Option String) (code : String)

/-- The wormhole is created with the URL in use.
mirrors src/wh/core/wormhole_manager.py:275-336 -/
def createAndSetCode (s : WormholeManager Versions) :
    CodeSet → Except String Unit × WormholeManager Versions
  | .unresolved address e => (.error e, { s with wnsAddress := address.or s.wnsAddress })
  | .refused address e =>
    (.error e, { s with
      wnsAddress := address.or s.wnsAddress
      wormhole := some ⟨s.appid, s.relayUrl, s.enableDilation⟩ })
  | .set address code =>
    (.ok (), { s with
      wnsAddress := address.or s.wnsAddress
      wormhole := some ⟨s.appid, s.relayUrl, s.enableDilation⟩
      code := some code })

/-- The versions of the peer, or what was raised, a timeout among it.
mirrors src/wh/core/wormhole_manager.py:337-379 -/
def establish (s : WormholeManager Versions) (r : Except String Versions) :
    Except String Versions × WormholeManager Versions :=
  match s.wormhole, r with
  | none, _ => (.error "Wormhole not created", s)
  | some _, .error e => (.error e, s)
  | some _, .ok versions => (.ok versions, { s with versions := some versions })

/-- Closing forgets the wormhole, also when it fails.
mirrors src/wh/core/wormhole_manager.py:567-588 -/
def close (s : WormholeManager Versions) (_ : Except String Unit) : WormholeManager Versions :=
  if s.wormhole.isSome then { s with wormhole := none, code := none, wnsAddress := none } else s

/-- How an attempt over one relay ends: setting the code, the peer, and closing again. -/
structure Attempt (Versions : Type) where
  code : CodeSet
  peer : Except String Versions
  closed : Except String Unit

/-- One turn of the loop, without the cleaning up.
mirrors src/wh/core/wormhole_manager.py:410-418 -/
def attempt (s : WormholeManager Versions) (a : Attempt Versions) :
    Except String Versions × WormholeManager Versions :=
  match s.createAndSetCode a.code with
  | (.error e, t) => (.error e, t)
  | (.ok (), t) => t.establish a.peer

/-- What an attempt comes to. -/
def Attempt.versions (a : Attempt Versions) : Option Versions :=
  match a.code, a.peer with
  | .set _ _, .ok versions => some versions
  | _, _ => none

/-- The same relays, and the same one in use. -/
structure SameRelays (s t : WormholeManager Versions) : Prop where
  list : t.relayList = s.relayList
  index : t.currentRelayIndex = s.currentRelayIndex
  relay : t.relay = s.relay

theorem SameRelays.trans {s t u : WormholeManager Versions} (h : SameRelays s t)
    (h' : SameRelays t u) : SameRelays s u :=
  ⟨h'.list.trans h.list, h'.index.trans h.index, h'.relay.trans h.relay⟩

theorem sameRelays_createAndSetCode (s : WormholeManager Versions) (r : CodeSet) :
    SameRelays s (s.createAndSetCode r).2 := by
  cases r <;> exact ⟨rfl, rfl, rfl⟩

theorem sameRelays_establish (s : WormholeManager Versions) (r : Except String Versions) :
    SameRelays s (s.establish r).2 := by
  unfold establish
  split <;> exact ⟨rfl, rfl, rfl⟩

theorem sameRelays_close (s : WormholeManager Versions) (r : Except String Unit) :
    SameRelays s (s.close r) := by
  unfold close
  split <;> exact ⟨rfl, rfl, rfl⟩

/-- How a turn ends: with the versions of the peer, over a wormhole at the URL in use, or
with an error; the relays are those it began with. -/
inductive Attempted (s : WormholeManager Versions) (a : Attempt Versions) :
    Except String Versions × WormholeManager Versions → Prop
  | connected (versions : Versions) (t : WormholeManager Versions) (h : a.versions = some versions)
      (hsame : SameRelays s t)
      (hcreated : t.wormhole = some ⟨s.appid, s.relayUrl, s.enableDilation⟩) :
      Attempted s a (.ok versions, t)
  | failed (e : String) (t : WormholeManager Versions) (h : a.versions = none)
      (hsame : SameRelays s t) : Attempted s a (.error e, t)

theorem attempted (s : WormholeManager Versions) (a : Attempt Versions) :
    Attempted s a (s.attempt a) := by
  obtain ⟨code, peer, closed⟩ := a
  unfold attempt
  cases code with
  | unresolved address e => exact .failed e _ rfl ⟨rfl, rfl, rfl⟩
  | refused address e => exact .failed e _ rfl ⟨rfl, rfl, rfl⟩
  | set address code =>
    cases peer with
    | error e => exact .failed e _ rfl ⟨rfl, rfl, rfl⟩
    | ok versions => exact .connected versions _ rfl ⟨rfl, rfl, rfl⟩ rfl

/-- The URLs in use are those of the current entry. -/
def Aligned (s : WormholeManager Versions) : Prop :=
  s.relayList[s.currentRelayIndex]? = some s.relay

theorem Aligned.of_same {s t : WormholeManager Versions} (h : Aligned s) (hs : SameRelays s t) :
    Aligned t := by
  unfold Aligned at h ⊢
  rw [hs.list, hs.index, hs.relay]
  exact h

theorem Aligned.lt {s : WormholeManager Versions} (h : Aligned s) :
    s.currentRelayIndex < s.relayList.length := (List.getElem?_eq_some_iff.mp h).1

/-- The next relay is the next entry, and it is there unless the current one is the last. -/
inductive Next (s : WormholeManager Versions) : Option (WormholeManager Versions) → Prop
  | next (t : WormholeManager Versions) (hlist : t.relayList = s.relayList)
      (hindex : t.currentRelayIndex = s.currentRelayIndex + 1) (haligned : Aligned t) :
      Next s (some t)
  | last (h : s.relayList.length ≤ s.currentRelayIndex + 1) : Next s none

theorem next (s : WormholeManager Versions) : Next s s.tryNextRelay := by
  unfold tryNextRelay
  split
  · rename_i h
    exact .next _ rfl rfl (List.getElem?_eq_getElem h)
  · exact .last (by omega)

theorem sameRelays_of_attempt {s t : WormholeManager Versions} {a : Attempt Versions}
    {r : Except String Versions} (h : s.attempt a = (r, t)) : SameRelays s t := by
  have ha := attempted s a
  rw [h] at ha
  cases ha <;> assumption

/-- After a failed attempt the next entry is tried. -/
theorem advanced {s t u : WormholeManager Versions} (hs : SameRelays s t)
    (h : t.tryNextRelay = some u) :
    u.relayList = s.relayList ∧ u.currentRelayIndex = s.currentRelayIndex + 1 ∧ Aligned u := by
  have hn := next t
  rw [h] at hn
  cases hn with
  | next _ hlist hindex haligned =>
    exact ⟨hlist.trans hs.list, hindex.trans (congrArg (· + 1) hs.index), haligned⟩

/-- What a call of `establish_with_fallback` comes to: its result, the manager it leaves, and
the relays that were tried. -/
structure Result (Versions : Type) where
  outcome : Except String Versions
  manager : WormholeManager Versions
  tried : List Relay

/-- `f` says how the attempt over each entry of the list ends.
mirrors src/wh/core/wormhole_manager.py:381-436 -/
def establishWithFallback (f : Nat → Attempt Versions) (s : WormholeManager Versions) :
    Result Versions :=
  match _hattempt : s.attempt (f s.currentRelayIndex) with
  | (.ok versions, t) => ⟨.ok versions, t, [s.relay]⟩
  | (.error e, t) =>
    match _hnext : (t.close (f s.currentRelayIndex).closed).tryNextRelay with
    | some u =>
      let r := establishWithFallback f u
      { r with tried := s.relay :: r.tried }
    | none =>
      ⟨.error ("Unable to connect through any relay. Last error: " ++ e),
        t.close (f s.currentRelayIndex).closed, [s.relay]⟩
termination_by s.relayList.length - s.currentRelayIndex
decreasing_by
  have hsame := (sameRelays_of_attempt _hattempt).trans
    (sameRelays_close t (f s.currentRelayIndex).closed)
  obtain ⟨hlist, hindex, haligned⟩ := advanced hsame _hnext
  have hlt := haligned.lt
  rw [hlist, hindex] at hlt
  rw [hlist, hindex]
  omega

variable {f : Nat → Attempt Versions} {s t u : WormholeManager Versions}

theorem establishWithFallback_connected {versions : Versions}
    (h : s.attempt (f s.currentRelayIndex) = (.ok versions, t)) :
    establishWithFallback f s = ⟨.ok versions, t, [s.relay]⟩ := by
  rw [establishWithFallback]
  split
  · rename_i h'
    rw [h] at h'
    cases h'
    rfl
  · rename_i h'
    rw [h] at h'
    cases h'

theorem establishWithFallback_next {e : String}
    (h : s.attempt (f s.currentRelayIndex) = (.error e, t))
    (hnext : (t.close (f s.currentRelayIndex).closed).tryNextRelay = some u) :
    establishWithFallback f s =
      { establishWithFallback f u with tried := s.relay :: (establishWithFallback f u).tried } := by
  rw [establishWithFallback]
  split
  · rename_i h'
    rw [h] at h'
    cases h'
  · rename_i h'
    rw [h] at h'
    cases h'
    split
    · rename_i hnext'
      rw [hnext] at hnext'
      cases hnext'
      rfl
    · rename_i hnext'
      rw [hnext] at hnext'
      cases hnext'

theorem establishWithFallback_last {e : String}
    (h : s.attempt (f s.currentRelayIndex) = (.error e, t))
    (hnext : (t.close (f s.currentRelayIndex).closed).tryNextRelay = none) :
    establishWithFallback f s =
      ⟨.error ("Unable to connect through any relay. Last error: " ++ e),
        t.close (f s.currentRelayIndex).closed, [s.relay]⟩ := by
  rw [establishWithFallback]
  split
  · rename_i h'
    rw [h] at h'
    cases h'
  · rename_i h'
    rw [h] at h'
    cases h'
    split
    · rename_i hnext'
      rw [hnext] at hnext'
      cases hnext'
    · rfl

/-! ## Every state -/

/-- What is called on a manager. -/
inductive Op (Versions : Type)
  | createAndSetCode (r : CodeSet)
  | establish (r : Except String Versions)
  | close (r : Except String Unit)
  | tryNextRelay

def step (s : WormholeManager Versions) : Op Versions → WormholeManager Versions
  | .createAndSetCode r => (s.createAndSetCode r).2
  | .establish r => (s.establish r).2
  | .close r => s.close r
  | .tryNextRelay => s.tryNextRelay.getD s

/-- A manager from its construction on, also in the midst of `establish_with_fallback`. -/
def system (Versions : Type) : LTS (WormholeManager Versions) (Op Versions) :=
  LTS.ofStep
    (fun s => ∃ appid relayUrl transitRelay fallbackRelays enableDilation,
      s = init appid relayUrl transitRelay fallbackRelays enableDilation)
    fun s op => some (s.step op)

theorem aligned_step {s : WormholeManager Versions} (h : Aligned s) (op : Op Versions) :
    Aligned (s.step op) := by
  cases op with
  | createAndSetCode r => exact h.of_same (sameRelays_createAndSetCode s r)
  | establish r => exact h.of_same (sameRelays_establish s r)
  | close r => exact h.of_same (sameRelays_close s r)
  | tryNextRelay =>
    unfold step
    have hn := next s
    cases hnext : s.tryNextRelay with
    | none => exact h
    | some t =>
      rw [hnext] at hn
      cases hn
      assumption

/-- **The URLs in use are those of the current entry**, in every state. -/
theorem aligned_reachable {s : WormholeManager Versions}
    (h : (system Versions).Reachable s) : Aligned s := by
  have hI : (system Versions).Inductive Aligned := by
    refine ⟨?_, ?_⟩
    · rintro _ ⟨appid, relayUrl, transitRelay, fallbackRelays, enableDilation, rfl⟩
      rfl
    · rintro s op t hs hst
      cases hst
      exact aligned_step hs op
  exact hI.reachable s h

theorem run_attempt (s : WormholeManager Versions) (a : Attempt Versions) :
    ∃ ops, (system Versions).Run s ops (s.attempt a).2 := by
  unfold attempt
  have hcreate : (system Versions).step s (.createAndSetCode a.code)
      (s.createAndSetCode a.code).2 := rfl
  split
  · rename_i e t h
    rw [h] at hcreate
    exact ⟨_, .single hcreate⟩
  · rename_i t h
    rw [h] at hcreate
    have hpeer : (system Versions).step t (.establish a.peer) (t.establish a.peer).2 := rfl
    exact ⟨_, .cons hcreate (.single hpeer)⟩

/-- The loop is a run of the calls it makes. -/
theorem run_establishWithFallback (f : Nat → Attempt Versions) (s : WormholeManager Versions) :
    ∃ ops, (system Versions).Run s ops (establishWithFallback f s).manager := by
  induction s using establishWithFallback.induct f with
  | case1 s versions t hattempt =>
    obtain ⟨ops, hr⟩ := run_attempt s (f s.currentRelayIndex)
    rw [hattempt] at hr
    rw [establishWithFallback_connected hattempt]
    exact ⟨ops, hr⟩
  | case2 s e t hattempt u hnext ih =>
    obtain ⟨ops, hr⟩ := run_attempt s (f s.currentRelayIndex)
    obtain ⟨rest, hrest⟩ := ih
    rw [hattempt] at hr
    have hclose : (system Versions).step t (.close (f s.currentRelayIndex).closed)
        (t.close (f s.currentRelayIndex).closed) := rfl
    have hstep : (system Versions).step (t.close (f s.currentRelayIndex).closed) .tryNextRelay u :=
      congrArg some (congrArg (Option.getD · _) hnext)
    rw [establishWithFallback_next hattempt hnext]
    exact ⟨_, hr.append (.cons hclose (.cons hstep hrest))⟩
  | case3 s e t hattempt hnext =>
    obtain ⟨ops, hr⟩ := run_attempt s (f s.currentRelayIndex)
    rw [hattempt] at hr
    have hclose : (system Versions).step t (.close (f s.currentRelayIndex).closed)
        (t.close (f s.currentRelayIndex).closed) := rfl
    rw [establishWithFallback_last hattempt hnext]
    exact ⟨_, hr.append (.single hclose)⟩

/-! ## The relays that are tried -/

/-- What `establish_with_fallback` does, from the current entry on: the entries are tried in
order, none that was tried before the last succeeds, the last one succeeds unless an error is
raised, and an error is raised when and only when every entry fails. -/
structure FellBack (f : Nat → Attempt Versions) (s : WormholeManager Versions)
    (r : Result Versions) : Prop where
  list : r.manager.relayList = s.relayList
  aligned : Aligned r.manager
  fromCurrent : s.currentRelayIndex ≤ r.manager.currentRelayIndex
  inOrder : r.tried = (s.relayList.drop s.currentRelayIndex).take
    (r.manager.currentRelayIndex + 1 - s.currentRelayIndex)
  failed : ∀ k, s.currentRelayIndex ≤ k → k < r.manager.currentRelayIndex →
    (f k).versions = none
  connected : ∀ versions, r.outcome = .ok versions →
    (f r.manager.currentRelayIndex).versions = some versions ∧
      r.manager.wormhole.map Created.relayUrl = some r.manager.relayUrl
  exhausted : ∀ e, r.outcome = .error e →
    r.manager.currentRelayIndex + 1 = s.relayList.length ∧
      (f r.manager.currentRelayIndex).versions = none

/-- What is left to try begins with the relay in use. -/
theorem drop_of_aligned (h : Aligned s) :
    s.relayList.drop s.currentRelayIndex =
      s.relay :: s.relayList.drop (s.currentRelayIndex + 1) := by
  obtain ⟨hlt, hget⟩ := List.getElem?_eq_some_iff.mp h
  rw [List.drop_eq_getElem_cons hlt, hget]

theorem fellBack_connected {versions : Versions} (h : Aligned s)
    (hattempt : s.attempt (f s.currentRelayIndex) = (.ok versions, t)) :
    FellBack f s ⟨.ok versions, t, [s.relay]⟩ := by
  have ha := attempted s (f s.currentRelayIndex)
  rw [hattempt] at ha
  cases ha with
  | connected _ _ hversions hsame hcreated =>
    refine ⟨hsame.list, h.of_same hsame, hsame.index.ge, ?_, ?_, ?_, fun _ he => nomatch he⟩
    · dsimp only
      rw [hsame.index, Nat.add_sub_cancel_left, drop_of_aligned h, List.take_succ_cons,
        List.take_zero]
    · intro k hk hlt
      dsimp only at hlt
      rw [hsame.index] at hlt
      omega
    · intro v hv
      cases hv
      refine ⟨by rw [hsame.index]; exact hversions, ?_⟩
      dsimp only
      rw [hcreated, Option.map_some]
      exact congrArg some (Prod.mk.inj hsame.relay).1.symm

theorem fellBack_last {e : String} (h : Aligned s)
    (hattempt : s.attempt (f s.currentRelayIndex) = (.error e, t))
    (hnext : (t.close (f s.currentRelayIndex).closed).tryNextRelay = none) (message : String) :
    FellBack f s ⟨.error message, t.close (f s.currentRelayIndex).closed, [s.relay]⟩ := by
  have ha := attempted s (f s.currentRelayIndex)
  rw [hattempt] at ha
  cases ha with
  | failed _ _ hversions hsame =>
    have hsame := hsame.trans (sameRelays_close t (f s.currentRelayIndex).closed)
    have hn := next (t.close (f s.currentRelayIndex).closed)
    rw [hnext] at hn
    cases hn with
    | last hlast =>
      rw [hsame.list, hsame.index] at hlast
      refine ⟨hsame.list, h.of_same hsame, hsame.index.ge, ?_, ?_, (fun _ hv => nomatch hv), ?_⟩
      · dsimp only
        rw [hsame.index, Nat.add_sub_cancel_left, drop_of_aligned h, List.take_succ_cons,
          List.take_zero]
      · intro k hk hlt
        dsimp only at hlt
        rw [hsame.index] at hlt
        omega
      · intro _ _
        dsimp only
        rw [hsame.index]
        have hlt := h.lt
        exact ⟨by omega, hversions⟩

theorem fellBack_next {e : String} (h : Aligned s)
    (hattempt : s.attempt (f s.currentRelayIndex) = (.error e, t))
    (hnext : (t.close (f s.currentRelayIndex).closed).tryNextRelay = some u)
    {r : Result Versions} (hr : FellBack f u r) :
    FellBack f s { r with tried := s.relay :: r.tried } := by
  have ha := attempted s (f s.currentRelayIndex)
  rw [hattempt] at ha
  cases ha with
  | failed _ _ hversions hsame =>
    obtain ⟨hlist, hindex, _⟩ := advanced
      (hsame.trans (sameRelays_close t (f s.currentRelayIndex).closed)) hnext
    have hfrom := hr.fromCurrent
    rw [hindex] at hfrom
    refine ⟨hr.list.trans hlist, hr.aligned, by dsimp only; omega, ?_, ?_, hr.connected, ?_⟩
    · have horder := hr.inOrder
      rw [hlist, hindex] at horder
      dsimp only
      rw [drop_of_aligned h, horder, ← List.take_succ_cons]
      congr 1
      omega
    · intro k hk hlt
      rcases Nat.eq_or_lt_of_le hk with rfl | hk
      · exact hversions
      · exact hr.failed k (by omega) hlt
    · intro e he
      have hlast := hr.exhausted e he
      rw [hlist] at hlast
      exact hlast

/-- **Every relay is tried once, in order**, whatever the attempts come to. -/
theorem fellBack (f : Nat → Attempt Versions) (s : WormholeManager Versions) (h : Aligned s) :
    FellBack f s (establishWithFallback f s) := by
  induction s using establishWithFallback.induct f with
  | case1 s versions t hattempt =>
    rw [establishWithFallback_connected hattempt]
    exact fellBack_connected h hattempt
  | case2 s e t hattempt u hnext ih =>
    rw [establishWithFallback_next hattempt hnext]
    have hsame := (sameRelays_of_attempt hattempt).trans
      (sameRelays_close t (f s.currentRelayIndex).closed)
    exact fellBack_next h hattempt hnext (ih (advanced hsame hnext).2.2)
  | case3 s e t hattempt hnext =>
    rw [establishWithFallback_last hattempt hnext]
    exact fellBack_last h hattempt hnext _

/-- An error is raised exactly when every entry from the current one on fails. -/
theorem FellBack.raises_iff {r : Result Versions} (h : FellBack f s r) :
    (∃ e, r.outcome = .error e) ↔
      ∀ k, s.currentRelayIndex ≤ k → k < s.relayList.length → (f k).versions = none := by
  constructor
  · rintro ⟨e, he⟩ k hk hlt
    obtain ⟨hlast, hfailed⟩ := h.exhausted e he
    rcases Nat.lt_or_ge k r.manager.currentRelayIndex with hbefore | hge
    · exact h.failed k hk hbefore
    · rwa [show k = r.manager.currentRelayIndex by omega]
  · intro hall
    cases hout : r.outcome with
    | error e => exact ⟨e, rfl⟩
    | ok versions =>
      have hlt := h.aligned.lt
      rw [h.list] at hlt
      have hnone := hall _ h.fromCurrent hlt
      rw [(h.connected versions hout).1] at hnone
      cases hnone

end WormholeManager

/-! ## The list of a configuration -/

/-- What `relay_url or DEFAULT_RELAY` makes of a relay. -/
def Relay.orDefault (r : Relay) : Relay :=
  ((named (some r.1)).getD DEFAULT_RELAY, (named (some r.2)).getD DEFAULT_TRANSIT_RELAY)

/-- The list of relays is that of the configuration, the default first (the first of the file
when there is no relay of that name) and the others in the order of the file; `fix` is what
becomes of the URLs of the first. -/
def Prioritized (fix : Relay → Relay) (config : RelayConfigFile) (list : List Relay) : Prop :=
  ∃ first rest, (first :: rest).Perm config.listRelays ∧ rest.Sublist config.listRelays ∧
    (first.name = config.default ∨
      (∀ r ∈ config.listRelays, r.name ≠ config.default) ∧
        config.listRelays.head? = some first) ∧
    list = fix first.urls :: rest.map RelayConfig.urls

/-- The loop keeps the relay of the default's name apart from the others. -/
theorem foldl_pick (default : String) (relays : List RelayConfig) (p : Option Relay × List Relay) :
    relays.foldl (pick default) p =
      (((relays.filter (·.name = default)).getLast?.map RelayConfig.urls).or p.1,
        p.2 ++ (relays.filter (·.name ≠ default)).map RelayConfig.urls) := by
  induction relays generalizing p with
  | nil => simp
  | cons r relays ih =>
    rw [List.foldl_cons, ih]
    unfold pick
    by_cases hname : r.name = default
    · have hin : (r :: relays).filter (·.name = default) =
          r :: relays.filter (·.name = default) := List.filter_cons_of_pos (by simp [hname])
      have hout : (r :: relays).filter (·.name ≠ default) =
          relays.filter (·.name ≠ default) := List.filter_cons_of_neg (by simp [hname])
      rw [if_pos hname, hin, hout, List.getLast?_cons]
      cases (relays.filter (·.name = default)).getLast? <;> rfl
    · simp [hname]

/-- At most one relay has the name of the default. -/
theorem filter_name_eq (config : RelayConfigFile) :
    (∀ r ∈ config.listRelays, r.name ≠ config.default) ∨
      ∃ first, config.listRelays.filter (·.name = config.default) = [first] := by
  cases hfilter : config.listRelays.filter (·.name = config.default) with
  | nil =>
    left
    intro r hr hname
    exact absurd (decide_eq_true hname) (List.filter_eq_nil_iff.mp hfilter r hr)
  | cons a relays =>
    cases relays with
    | nil => exact .inr ⟨a, rfl⟩
    | cons b relays =>
      have hnodup := (config.relays.names_nodup).sublist
        ((List.filter_sublist (p := fun r => decide (r.name = config.default))).map
          RelayConfig.name)
      have hname : ∀ r ∈ a :: b :: relays, r.name = config.default := by
        intro r hr
        rw [← hfilter] at hr
        exact of_decide_eq_true (List.mem_filter.mp hr).2
      have hdup : ((a :: b :: relays).map RelayConfig.name).Nodup := hfilter ▸ hnodup
      have hne := (List.nodup_cons.mp hdup).1
      rw [hname a List.mem_cons_self] at hne
      have hb := hname b (List.mem_cons_of_mem _ List.mem_cons_self)
      exact absurd (List.mem_map.mpr ⟨b, List.mem_cons_self, hb⟩) hne

/-- The relay to begin with and the others, by the configuration. -/
theorem priority_spec (config : RelayConfigFile) :
    Prioritized id config ((priority config).1 :: (priority config).2) := by
  have hfold := foldl_pick config.default config.listRelays (none, [])
  rcases filter_name_eq config with hnone | ⟨first, hfirst⟩
  · have hfilter : config.listRelays.filter (·.name = config.default) = [] :=
      List.filter_eq_nil_iff.mpr fun r hr => by simp [hnone r hr]
    cases hrelays : config.listRelays with
    | nil => exact absurd hrelays (listRelays_ne_nil config)
    | cons r relays =>
      have hpriority : priority config = (r.urls, relays.map RelayConfig.urls) := by
        unfold priority
        rw [hfold, hfilter, hrelays]
        rfl
      rw [hpriority]
      refine ⟨r, relays, ?_, ?_, .inr ⟨hnone, ?_⟩, rfl⟩
      · rw [hrelays]
      · rw [hrelays]
        exact List.sublist_cons_self r relays
      · rw [hrelays]
        rfl
  · have hpriority : priority config =
        (first.urls, (config.listRelays.filter (·.name ≠ config.default)).map RelayConfig.urls) := by
      unfold priority
      rw [hfold, hfirst]
      rfl
    rw [hpriority]
    have hname : first ∈ config.listRelays.filter (·.name = config.default) := by
      rw [hfirst]
      exact List.mem_singleton.mpr rfl
    refine ⟨first, _, ?_, List.filter_sublist, .inl ?_, rfl⟩
    · have hperm := List.filter_append_perm (fun r : RelayConfig => r.name = config.default)
        config.listRelays
      rw [hfirst] at hperm
      simpa using hperm
    · exact of_decide_eq_true (List.mem_filter.mp hname).2

theorem prioritized (appid : Option String) (config : RelayConfigFile) (Versions : Type) :
    Prioritized Relay.orDefault config
      (WormholeManager.fromRelayConfig appid config : WormholeManager Versions).relayList := by
  obtain ⟨first, rest, hperm, hsub, hfirst, hlist⟩ := priority_spec config
  obtain ⟨h1, h2⟩ := List.cons.inj hlist
  refine ⟨first, rest, hperm, hsub, hfirst, ?_⟩
  unfold WormholeManager.fromRelayConfig WormholeManager.init
  rw [h1, h2]
  rfl

/-- **Relay fallback.** The list is the configuration's, with the default first and built-in
URLs where the first relay has none; in every state the URLs in use are those of the current
entry; and from there on `establish_with_fallback` tries every entry once, in order, until one
succeeds, and raises exactly when all of them fail. -/
theorem relay_fallback (appid : Option String) (config : RelayConfigFile) (Versions : Type) :
    Prioritized Relay.orDefault config
        (WormholeManager.fromRelayConfig appid config : WormholeManager Versions).relayList ∧
      ∀ s, (WormholeManager.system Versions).Reachable s → s.Aligned ∧
        ∀ f, WormholeManager.FellBack f s (s.establishWithFallback f) ∧
          ((∃ e, (s.establishWithFallback f).outcome = .error e) ↔
            ∀ k, s.currentRelayIndex ≤ k → k < s.relayList.length → (f k).versions = none) := by
  refine ⟨prioritized appid config Versions, fun s hs => ?_⟩
  have haligned := WormholeManager.aligned_reachable hs
  refine ⟨haligned, fun f => ?_⟩
  have hback := WormholeManager.fellBack f s haligned
  exact ⟨hback, hback.raises_iff⟩

/-- A file with one relay that has no transit relay of its own. -/
def localFile : RelayFile where
  default := some "local"
  relays := Dict.empty.set "local"
    { mailboxUrl := some "ws://localhost:4000/v1", transitUrl := some "" }

/-- **An empty URL is replaced.** The default relay of the file has no transit URL; the
manager's has the built-in one. -/
theorem emptyUrl_replaced :
    ∃ config, load (some localFile) = some config ∧
      ¬ (WormholeManager.fromRelayConfig none config : WormholeManager Unit).relayList.Perm
        (config.listRelays.map RelayConfig.urls) := by
  refine ⟨_, rfl, ?_⟩
  decide +kernel

end Wormhole.L4.Fallback
