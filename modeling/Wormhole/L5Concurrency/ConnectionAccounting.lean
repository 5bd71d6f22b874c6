import Mathlib.Data.Finset.Card
import Mathlib.Data.List.Perm.Basic
import Mathlib.Tactic.Linarith
import Wormhole.L4App.AcquireCosts

/-!
# Connection accounting

The connection counters of the rate limiter against a ledger of what was acquired. An
acquisition is entered when `acquire` grants a call with a session id, and all those of a
session leave when `release` finds it active.

* `accounts_exact`: the counters are those of the ledger while no id is acquired that is
  active and each release names the identity and the IP of the acquisition.
* `acquired_twice`: the same id acquired twice counts two connections and one session.
* `limits_hold`: with matching releases, and `max_concurrent_connections` set for every
  identity that opens a session, nobody has more of them than the quotas say.
* `sessions_unlimited`: without it the limit on sessions is not looked at.

An empty name is no name: the code counts nothing for it.
-/
namespace Wormhole.L5.ConnectionAccounting
open Wormhole.L4.Enterprise

/-! ## The ledger -/

/-- One granted call: its session, and the names it was counted under. -/
structure Acquisition where
  session : String
  identity : Option String
  sourceIp : Option String
deriving DecidableEq

abbrev Ledger := List Acquisition

def Ledger.upd (I : IpModule) (r : Ledger) (s : Timed) (call : Call) (_ : Timed) : Ledger :=
  match call with
  | .acquire c sessionId now =>
    match named sessionId, (s.limiter.acquire I c sessionId now).1 with
    | some id, none => ⟨id, named c.identity, named c.sourceIp⟩ :: r
    | _, _ => r
  | .release sessionId _ _ =>
    if sessionId ∈ s.limiter.activeSessions then r.filter (·.session ≠ sessionId) else r
  | .reset _ => []
  | _ => r

/-- The limiter with its ledger. -/
def ledger (I : IpModule) (p : Policy) : LTS (Timed × Ledger) Call :=
  (system I p).observe [] (Ledger.upd I)

/-- The active sessions with an acquisition of the kind `q`. -/
def sessionsFor (s : RateLimiter) (r : Ledger) (q : Acquisition → Bool) : Finset String :=
  s.activeSessions.filter fun id => ∃ a ∈ r, a.session = id ∧ q a

/-- The active sessions acquired for an IP. -/
def ipSessions (s : RateLimiter) (r : Ledger) (k : String) : Finset String :=
  sessionsFor s r fun a => a.sourceIp = some k

/-- The active sessions acquired for an identity. -/
def identitySessions (s : RateLimiter) (r : Ledger) (k : String) : Finset String :=
  sessionsFor s r fun a => a.identity = some k

/-- `active_connections` under a key. -/
def active (d : Trackers) (k : String) : Int := (d.at? k).activeConnections

/-! ## What a call does to the counters -/

theorem at?_touch (d : Trackers) (key : Option String) (j : String) :
    (d.touch key).at? j = d.at? j := by
  unfold Trackers.touch
  cases key with
  | none => rfl
  | some k =>
    dsimp only
    split
    · rfl
    · rename_i h
      have hnone : d.get? k = none := by simpa using h
      rw [Trackers.at?_set]
      split
      · rename_i hk
        subst hk
        unfold Trackers.at?
        rw [hnone]
        rfl
      · rfl

/-- An update that leaves `active_connections` alone. -/
theorem active_set {d : Trackers} {k : String} {t : ConnectionTracker}
    (h : t.activeConnections = active d k) (j : String) : active (d.set k t) j = active d j := by
  unfold active
  rw [Trackers.at?_set]
  split
  · rename_i hk
    rw [← hk, h]
    rfl
  · rfl

theorem active_connect (d : Trackers) (key : Option String) (j : String) :
    active (d.update key .connect) j = active d j + if key = some j then 1 else 0 := by
  unfold active
  rw [Trackers.at?_update]
  split
  · rfl
  · exact (add_zero _).symm

theorem active_disconnect {d : Trackers} {key : Option String} {j : String}
    (h : key = some j → 0 < active d j) :
    active (d.updatePresent key .disconnect) j = active d j - if key = some j then 1 else 0 := by
  cases key with
  | none => simp [Trackers.updatePresent]
  | some k =>
    unfold Trackers.updatePresent
    dsimp only
    by_cases hk : k = j
    · subst hk
      have hin : d.contains k = true := by
        by_contra hn
        have hnone : d.get? k = none := by simpa using hn
        have hpos := h rfl
        unfold active Trackers.at? at hpos
        rw [hnone] at hpos
        cases hpos
      rw [if_pos hin]
      unfold active
      rw [Trackers.at?_set]
      simp [ConnectionTracker.disconnect]
    · split
      · unfold active
        rw [Trackers.at?_set, if_neg hk]
        simp [hk]
      · simp [hk]

/-- The same sessions and the same counters. -/
structure SameAccounts (s t : RateLimiter) : Prop where
  policy : t.policy = s.policy
  sessions : t.activeSessions = s.activeSessions
  global : t.globalTracker.activeConnections = s.globalTracker.activeConnections
  ip : ∀ k, active t.ipConnections k = active s.ipConnections k
  identity : ∀ k, active t.identityConnections k = active s.identityConnections k

theorem sameAccounts_checkConnections {s t : RateLimiter} (h : SameAccounts s t)
    (quotas : QuotaConfig) (c : Caller) : SameAccounts s (t.checkConnections quotas c).2 := by
  have htouch : ∀ (d : Trackers) key j, active (d.touch key) j = active d j := by
    intro d key j
    unfold active
    rw [at?_touch]
  unfold RateLimiter.checkConnections
  split
  · exact h
  · refine Outcome.andThen_keeps (P := SameAccounts s) ?_ ?_
    · exact ⟨h.policy, h.sessions, h.global, fun k => (htouch _ _ k).trans (h.ip k), h.identity⟩
    · intro u hu
      exact ⟨hu.policy, hu.sessions, hu.global, hu.ip,
        fun k => (htouch _ _ k).trans (hu.identity k)⟩

theorem sameAccounts_checkGlobal (s : RateLimiter) (now : Readings) :
    SameAccounts s (s.checkGlobal now).2 := by
  unfold RateLimiter.checkGlobal
  split <;> exact ⟨rfl, rfl, rfl, fun _ => rfl, fun _ => rfl⟩

theorem SameAccounts.ipFull {s t : RateLimiter} (h : SameAccounts s t) {quotas : QuotaConfig}
    {c : Caller} (hf : s.IpFull quotas c) : t.IpFull quotas c := by
  obtain ⟨m, k, hm, hk, hle⟩ := hf
  exact ⟨m, k, hm, hk, hle.trans_eq (h.ip k).symm⟩

theorem SameAccounts.identityFull {s t : RateLimiter} (h : SameAccounts s t)
    {quotas : QuotaConfig} {c : Caller} (hf : s.IdentityFull quotas c) :
    t.IdentityFull quotas c := by
  obtain ⟨n, k, hm, hn, hk, hle⟩ := hf
  exact ⟨n, k, hm, hn, hk, hle.trans_eq (h.identity k).symm⟩

/-- What a call of `acquire` does to the accounts: nothing when it is refused, else the new
connection is counted, of a caller that is not full. -/
inductive Accounted (s : RateLimiter) (quotas : QuotaConfig) (c : Caller)
    (sessionId : Option String) : Outcome RateLimiter → Prop
  | refused (e : Refusal) (t : RateLimiter) (h : SameAccounts s t) :
      Accounted s quotas c sessionId (some e, t)
  | granted (t : RateLimiter) (h : SameAccounts s t) (hip : ¬ s.IpFull quotas c)
      (hid : ¬ s.IdentityFull quotas c) :
      Accounted s quotas c sessionId (none, t.track c sessionId)

theorem accounted (I : IpModule) (s : RateLimiter) (c : Caller) (sessionId : Option String)
    (now : Readings) :
    Accounted s (s.policy.getQuotas I c) c sessionId (s.acquire I c sessionId now) := by
  unfold RateLimiter.acquire
  have hg := sameAccounts_checkGlobal s now
  refine Outcome.andThen_elim (fun e => .refused e _ hg) fun _ => ?_
  refine Outcome.andThen_elim (fun e => .refused e _ ⟨hg.policy, hg.sessions, hg.global, hg.ip,
    hg.identity⟩) fun _ => ?_
  refine Outcome.andThen_elim (fun e => .refused e _ ⟨hg.policy, hg.sessions, hg.global, hg.ip,
    hg.identity⟩) fun _ => ?_
  generalize hu : (RateLimiter.checkIdentity _ _ c now).2 = u
  have h : SameAccounts s u := by
    rw [← hu]
    exact ⟨hg.policy, hg.sessions, hg.global, hg.ip, hg.identity⟩
  have hc := sameAccounts_checkConnections h (s.policy.getQuotas I c) c
  have hfull := RateLimiter.connectionsChecked u (s.policy.getQuotas I c) c
  refine Outcome.andThen_elim (fun e => .refused e _ hc) fun hnone => ?_
  cases hr : u.checkConnections (s.policy.getQuotas I c) c with
  | mk e t =>
    rw [hr] at hnone hc hfull
    cases hnone
    cases hfull with
    | pass _ hip hid =>
      exact .granted t hc (fun h' => hip (h.ipFull h')) (fun h' => hid (h.identityFull h'))

theorem active_track_ip {t : RateLimiter} {c : Caller} {sessionId : Option String} {id : String}
    (h : named sessionId = some id) (j : String) :
    active (t.track c sessionId).ipConnections j =
      active t.ipConnections j + if named c.sourceIp = some j then 1 else 0 := by
  unfold RateLimiter.track
  rw [h]
  exact active_connect _ _ j

theorem active_track_identity {t : RateLimiter} {c : Caller} {sessionId : Option String}
    {id : String} (h : named sessionId = some id) (j : String) :
    active (t.track c sessionId).identityConnections j =
      active t.identityConnections j + if named c.identity = some j then 1 else 0 := by
  unfold RateLimiter.track
  rw [h]
  exact active_connect _ _ j

theorem track_sessions {t : RateLimiter} {c : Caller} {sessionId : Option String} {id : String}
    (h : named sessionId = some id) :
    (t.track c sessionId).activeSessions = insert id t.activeSessions ∧
      (t.track c sessionId).globalTracker.activeConnections =
        t.globalTracker.activeConnections + 1 := by
  unfold RateLimiter.track
  rw [h]
  exact ⟨rfl, rfl⟩

theorem resetIfNeeded_active (t : ConnectionTracker) (today : LocalDate) :
    (t.resetIfNeeded today).activeConnections = t.activeConnections := by
  unfold ConnectionTracker.resetIfNeeded ConnectionTracker.resetMonth ConnectionTracker.resetDay
  split <;> split <;> rfl

theorem sameAccounts_checkBandwidth (I : IpModule) (s : RateLimiter) (bytes : Nat) (c : Caller)
    (today : LocalDate) : SameAccounts s (s.checkBandwidth I bytes c today).2 := by
  unfold RateLimiter.checkBandwidth
  dsimp only
  split
  · exact ⟨rfl, rfl, resetIfNeeded_active _ _, fun _ => rfl, fun _ => rfl⟩
  · split
    · exact ⟨rfl, rfl, resetIfNeeded_active _ _, fun _ => rfl, fun _ => rfl⟩
    · exact ⟨rfl, rfl, resetIfNeeded_active _ _, fun _ => rfl,
        active_set (resetIfNeeded_active _ _)⟩

theorem active_record (d : Trackers) (key : Option String) (bytes : Nat) (j : String) :
    active (d.update key (·.record bytes)) j = active d j := by
  cases key with
  | none => rfl
  | some k => exact active_set (t := (d.at? k).record bytes) rfl j

theorem sameAccounts_recordBytes (s : RateLimiter) (bytes : Nat)
    (identity sourceIp : Option String) :
    SameAccounts s (s.recordBytes bytes identity sourceIp) :=
  ⟨rfl, rfl, rfl, active_record _ _ _, active_record _ _ _⟩

/-! ## What a step does to the ledger -/

/-- The four ways a step changes the accounts and the ledger. -/
inductive Booked (quotas : Caller → QuotaConfig) (s : RateLimiter) (r : Ledger) :
    Call → RateLimiter → Ledger → Prop
  | same (call : Call) (t : RateLimiter) (h : SameAccounts s t) : Booked quotas s r call t r
  | opened (c : Caller) (sessionId : Option String) (now : Readings) (id : String)
      (t u : RateLimiter) (hid : named sessionId = some id) (h : SameAccounts s u)
      (ht : t = u.track c sessionId) (hip : ¬ s.IpFull (quotas c) c)
      (hidentity : ¬ s.IdentityFull (quotas c) c) :
      Booked quotas s r (.acquire c sessionId now) t
        (⟨id, named c.identity, named c.sourceIp⟩ :: r)
  | closed (id : String) (identity sourceIp : Option String) (hin : id ∈ s.activeSessions) :
      Booked quotas s r (.release id identity sourceIp) (s.release id identity sourceIp)
        (r.filter (·.session ≠ id))
  | cleared (now : ℚ) (t : RateLimiter) (hpolicy : t.policy = s.policy)
      (hsessions : t.activeSessions = ∅) (hglobal : t.globalTracker.activeConnections = 0)
      (hip : t.ipConnections = .empty) (hidentity : t.identityConnections = .empty) :
      Booked quotas s r (.reset now) t []

theorem booked {I : IpModule} {s t : Timed} {call : Call} (h : Timed.step I s call = some t)
    (r : Ledger) :
    Booked (s.limiter.policy.getQuotas I) s.limiter r call t.limiter
      (Ledger.upd I r s call t) := by
  cases call with
  | acquire c sessionId now =>
    simp only [Timed.step] at h
    split at h
    · cases h
      unfold Ledger.upd
      dsimp only
      have ha := accounted I s.limiter c sessionId now
      generalize s.limiter.acquire I c sessionId now = o at ha ⊢
      cases ha with
      | refused e u hu =>
        cases named sessionId <;> exact .same _ u hu
      | granted u hu hip hid =>
        cases hn : named sessionId with
        | some id => exact .opened c sessionId now id _ u hn hu rfl hip hid
        | none =>
          dsimp only
          unfold RateLimiter.track
          rw [hn]
          exact .same _ u hu
    · cases h
  | release id identity sourceIp =>
    cases h
    unfold Ledger.upd
    dsimp only
    split
    · exact .closed id identity sourceIp ‹_›
    · rename_i hin
      have hrel : s.limiter.release id identity sourceIp = s.limiter := if_neg hin
      rw [hrel]
      exact .same _ _ ⟨rfl, rfl, rfl, fun _ => rfl, fun _ => rfl⟩
  | checkBandwidth bytes c today =>
    cases h
    exact .same _ _ (sameAccounts_checkBandwidth I s.limiter bytes c today)
  | recordBytes bytes identity sourceIp =>
    cases h
    exact .same _ _ (sameAccounts_recordBytes s.limiter bytes identity sourceIp)
  | reset now =>
    simp only [Timed.step] at h
    split at h
    · cases h
      exact .cleared now _ rfl rfl rfl rfl rfl
    · cases h

theorem policy_of_booked {quotas : Caller → QuotaConfig} {s t : RateLimiter} {r r' : Ledger}
    {call : Call} (h : Booked quotas s r call t r') : t.policy = s.policy := by
  cases h with
  | same _ _ h => exact h.policy
  | opened c sessionId now id _ u hid hu ht =>
    rw [ht]
    unfold RateLimiter.track
    split <;> exact hu.policy
  | closed id identity sourceIp hin =>
    unfold RateLimiter.release
    split <;> rfl
  | cleared now _ hpolicy => exact hpolicy

/-! ## Releases -/

/-- The release names the identity and the IP of an acquisition of its session. -/
def NamesAcquisition (r : Ledger) (id : String) (identity sourceIp : Option String) : Prop :=
  ∃ a ∈ r, a.session = id ∧ a.identity = named identity ∧ a.sourceIp = named sourceIp

instance (r : Ledger) (id : String) (identity sourceIp : Option String) :
    Decidable (NamesAcquisition r id identity sourceIp) :=
  inferInstanceAs (Decidable (∃ a ∈ r, _))

theorem release_of_mem {s : RateLimiter} {id : String} (h : id ∈ s.activeSessions)
    (identity sourceIp : Option String) :
    s.release id identity sourceIp =
      { s with
        activeSessions := s.activeSessions.erase id
        globalTracker := s.globalTracker.disconnect
        ipConnections := s.ipConnections.updatePresent (named sourceIp) .disconnect
        identityConnections := s.identityConnections.updatePresent (named identity)
          .disconnect } :=
  if_pos h

/-! ## The counters are exact -/

/-- `active_connections` everywhere is the number of active sessions acquired under the key. -/
structure Exact (s : RateLimiter) (r : Ledger) : Prop where
  global : s.globalTracker.activeConnections = s.activeSessions.card
  ip : ∀ k, active s.ipConnections k = (ipSessions s r k).card
  identity : ∀ k, active s.identityConnections k = (identitySessions s r k).card

/-- An id that is acquired is not active, and the release of an active one names what it was
acquired with. -/
def Paired (s : RateLimiter) (r : Ledger) : Call → Prop
  | .acquire _ sessionId _ => ¬ (named sessionId).any (· ∈ s.activeSessions)
  | .release id identity sourceIp =>
    id ∈ s.activeSessions → NamesAcquisition r id identity sourceIp
  | _ => True

instance (s : RateLimiter) (r : Ledger) (call : Call) : Decidable (Paired s r call) := by
  cases call <;> unfold Paired <;> infer_instance

/-- The ledger has one entry for each active session, and the counters count its entries. -/
structure Books (s : RateLimiter) (r : Ledger) : Prop where
  nodup : (r.map Acquisition.session).Nodup
  mem_iff : ∀ id, id ∈ s.activeSessions ↔ ∃ a ∈ r, a.session = id
  global : s.globalTracker.activeConnections = r.length
  ip : ∀ k, active s.ipConnections k = r.countP (·.sourceIp = some k)
  identity : ∀ k, active s.identityConnections k = r.countP (·.identity = some k)

/-- One entry taken out of a list with distinct sessions. -/
theorem perm_cons_filter {r : Ledger} (h : (r.map Acquisition.session).Nodup) {a : Acquisition}
    (ha : a ∈ r) : r.Perm (a :: r.filter (·.session ≠ a.session)) := by
  induction r with
  | nil => cases ha
  | cons b r ih =>
    rw [List.map_cons, List.nodup_cons] at h
    rcases List.mem_cons.mp ha with rfl | ha
    · have hall : ∀ b ∈ r, decide (b.session ≠ a.session) = true := by
        intro b hb
        refine decide_eq_true fun e => h.1 ?_
        rw [← e]
        exact List.mem_map_of_mem hb
      rw [List.filter_cons_of_neg (by simp), List.filter_eq_self.mpr hall]
    · have hne : b.session ≠ a.session := by
        intro e
        apply h.1
        rw [e]
        exact List.mem_map_of_mem ha
      rw [List.filter_cons_of_pos (by simpa using hne)]
      exact ((ih h.2 ha).cons b).trans (.swap a b _)

theorem card_sessionsFor {s : RateLimiter} {r : Ledger}
    (hn : (r.map Acquisition.session).Nodup)
    (hm : ∀ id, id ∈ s.activeSessions ↔ ∃ a ∈ r, a.session = id) (q : Acquisition → Bool) :
    (sessionsFor s r q).card = r.countP q := by
  have hset : sessionsFor s r q = ((r.filter q).map Acquisition.session).toFinset := by
    ext id
    simp only [sessionsFor, Finset.mem_filter, hm, List.mem_toFinset, List.mem_map,
      List.mem_filter]
    constructor
    · rintro ⟨_, a, ha, hid, hq⟩
      exact ⟨a, ⟨ha, hq⟩, hid⟩
    · rintro ⟨a, ⟨ha, hq⟩, hid⟩
      exact ⟨⟨a, ha, hid⟩, a, ha, hid, hq⟩
  rw [hset, List.toFinset_card_of_nodup (hn.sublist (List.filter_sublist.map _)),
    List.length_map, List.countP_eq_length_filter]

theorem Books.exact {s : RateLimiter} {r : Ledger} (h : Books s r) : Exact s r := by
  refine ⟨?_, fun k => ?_, fun k => ?_⟩
  · have hall := card_sessionsFor h.nodup h.mem_iff fun _ => true
    have hset : sessionsFor s r (fun _ => true) = s.activeSessions := by
      refine Finset.filter_true_of_mem fun id hid => ?_
      obtain ⟨a, ha, e⟩ := (h.mem_iff id).mp hid
      exact ⟨a, ha, e, rfl⟩
    rw [hset, List.countP_true] at hall
    rw [h.global, hall]
  · rw [h.ip k, ipSessions, card_sessionsFor h.nodup h.mem_iff]
  · rw [h.identity k, identitySessions, card_sessionsFor h.nodup h.mem_iff]

theorem Books.same {s t : RateLimiter} {r : Ledger} (h : Books s r) (hs : SameAccounts s t) :
    Books t r :=
  ⟨h.nodup, fun id => by rw [hs.sessions]; exact h.mem_iff id, hs.global.trans h.global,
    fun k => (hs.ip k).trans (h.ip k), fun k => (hs.identity k).trans (h.identity k)⟩

theorem Books.opened {u : RateLimiter} {r : Ledger} (h : Books u r) {c : Caller}
    {sessionId : Option String} {id : String} (hid : named sessionId = some id)
    (hnew : id ∉ u.activeSessions) :
    Books (u.track c sessionId) (⟨id, named c.identity, named c.sourceIp⟩ :: r) := by
  obtain ⟨hsessions, hglobal⟩ := track_sessions (t := u) (c := c) hid
  refine ⟨?_, fun j => ?_, ?_, fun k => ?_, fun k => ?_⟩
  · rw [List.map_cons, List.nodup_cons]
    refine ⟨fun hmem => hnew ?_, h.nodup⟩
    obtain ⟨a, ha, e⟩ := List.mem_map.mp hmem
    exact (h.mem_iff id).mpr ⟨a, ha, e⟩
  · rw [hsessions, Finset.mem_insert, h.mem_iff]
    simp only [List.mem_cons, exists_eq_or_imp, eq_comm]
  · rw [hglobal, h.global, List.length_cons, Nat.cast_succ]
  · rw [active_track_ip hid, h.ip, List.countP_cons]
    by_cases hk : named c.sourceIp = some k <;> simp [hk]
  · rw [active_track_identity hid, h.identity, List.countP_cons]
    by_cases hk : named c.identity = some k <;> simp [hk]

theorem Books.closed {s : RateLimiter} {r : Ledger} (h : Books s r) {id : String}
    {identity sourceIp : Option String} (hin : id ∈ s.activeSessions)
    (hnames : NamesAcquisition r id identity sourceIp) :
    Books (s.release id identity sourceIp) (r.filter (·.session ≠ id)) := by
  obtain ⟨a, ha, rfl, hidentity, hip⟩ := hnames
  have hperm := perm_cons_filter h.nodup ha
  have hcount := fun q : Acquisition → Bool => (hperm.countP_eq q).trans List.countP_cons
  rw [release_of_mem hin, ← hidentity, ← hip]
  refine ⟨h.nodup.sublist (List.filter_sublist.map _), fun j => ?_, ?_, fun k => ?_, fun k => ?_⟩
  · dsimp only
    rw [Finset.mem_erase, h.mem_iff]
    constructor
    · rintro ⟨hne, b, hb, rfl⟩
      exact ⟨b, List.mem_filter.mpr ⟨hb, decide_eq_true hne⟩, rfl⟩
    · rintro ⟨b, hb, rfl⟩
      obtain ⟨hb, hne⟩ := List.mem_filter.mp hb
      exact ⟨of_decide_eq_true hne, b, hb, rfl⟩
  · have hlen := hperm.length_eq
    rw [List.length_cons] at hlen
    have hglobal := h.global
    simp only [ConnectionTracker.disconnect]
    omega
  · have hk := hcount fun b => b.sourceIp = some k
    rw [active_disconnect, h.ip k, hk]
    · by_cases e : a.sourceIp = some k <;> simp [e]
    · intro e
      rw [h.ip k, hk, if_pos (decide_eq_true e)]
      omega
  · have hk := hcount fun b => b.identity = some k
    rw [active_disconnect, h.identity k, hk]
    · by_cases e : a.identity = some k <;> simp [e]
    · intro e
      rw [h.identity k, hk, if_pos (decide_eq_true e)]
      omega

theorem books_empty {s : RateLimiter} (hsessions : s.activeSessions = ∅)
    (hglobal : s.globalTracker.activeConnections = 0) (hip : s.ipConnections = .empty)
    (hidentity : s.identityConnections = .empty) : Books s [] := by
  refine ⟨List.nodup_nil, fun id => ?_, hglobal, fun k => ?_, fun k => ?_⟩
  · rw [hsessions]
    simp
  · rw [hip]
    rfl
  · rw [hidentity]
    rfl

theorem books_step {quotas : Caller → QuotaConfig} {s t : RateLimiter} {r r' : Ledger}
    {call : Call} (hb : Booked quotas s r call t r') (h : Books s r) (hp : Paired s r call) :
    Books t r' := by
  cases hb with
  | same _ _ hs => exact h.same hs
  | opened c sessionId now id _ u hid hu ht =>
    rw [ht]
    refine (h.same hu).opened hid fun hin => ?_
    rw [hu.sessions] at hin
    simp [Paired, hid, hin] at hp
  | closed id identity sourceIp hin => exact h.closed hin (hp hin)
  | cleared now _ _ hsessions hglobal hip hidentity =>
    exact books_empty hsessions hglobal hip hidentity

/-- The ledger under calls that pair. -/
def paired (I : IpModule) (p : Policy) : LTS (Timed × Ledger) Call :=
  (ledger I p).restrict fun q call => Paired q.1.limiter q.2 call

/-- **Headline.** While acquisitions and releases pair, every `active_connections` is the number
of active sessions acquired under its key, and so is never negative. -/
theorem accounts_exact (I : IpModule) (p : Policy) (s : Timed) (r : Ledger)
    (h : (paired I p).Reachable (s, r)) :
    Exact s.limiter r ∧
      ∀ k, 0 ≤ active s.limiter.ipConnections k ∧ 0 ≤ active s.limiter.identityConnections k := by
  have hI : (paired I p).Inductive fun q => Books q.1.limiter q.2 := by
    refine ⟨?_, ?_⟩
    · rintro ⟨s, r⟩ ⟨hs, hr⟩
      subst hr
      rw [hs]
      exact books_empty rfl rfl rfl rfl
    · rintro ⟨s, r⟩ call ⟨t, r'⟩ h ⟨hp, hst, hr⟩
      change r' = Ledger.upd I r s call t at hr
      subst hr
      exact books_step (booked hst r) h hp
  have hexact := (hI.reachable _ h).exact
  refine ⟨hexact, fun k => ⟨?_, ?_⟩⟩
  · rw [hexact.ip k]
    exact Int.natCast_nonneg _
  · rw [hexact.identity k]
    exact Int.natCast_nonneg _

/-! ### On fixed calls -/

def noLimits : Policy := .ofDefaults .default .default

def alice : Caller := ⟨some "alice", some "10.0.0.1", none⟩

/-- A call with what it does to the ledger. -/
def bookedStep : Timed × Ledger → Call → Option (Timed × Ledger) :=
  LTS.recorded (Timed.step noAddresses) (Ledger.upd noAddresses)

def pairedCheck (q : Timed × Ledger) (call : Call) : Bool := decide (Paired q.1.limiter q.2 call)

theorem paired_of_check (q : Timed × Ledger) (call : Call) (h : pairedCheck q call = true) :
    Paired q.1.limiter q.2 call := of_decide_eq_true h

def opening (p : Policy) : Timed × Ledger := (⟨.new noAddresses p 0, 0⟩, [])

/-- Two sessions, one of them released. -/
def openAndCloseCalls : List Call :=
  [.acquire alice (some "s1") (.at 0), .acquire alice (some "s2") (.at 0),
   .release "s1" (some "alice") (some "10.0.0.1")]

def openAndClose : Timed × Ledger :=
  LTS.after (LTS.checked pairedCheck bookedStep) (opening noLimits) openAndCloseCalls

theorem accounts_exact_openAndClose :
    (Exact openAndClose.1.limiter openAndClose.2 ∧
      ∀ k, 0 ≤ active openAndClose.1.limiter.ipConnections k ∧
        0 ≤ active openAndClose.1.limiter.identityConnections k) ∧
      active openAndClose.1.limiter.ipConnections "10.0.0.1" = 1 := by
  refine ⟨accounts_exact noAddresses noLimits _ _ ?_, by decide +kernel⟩
  have hexec : LTS.exec (LTS.checked pairedCheck bookedStep) (opening noLimits)
      openAndCloseCalls = some openAndClose := LTS.exec_after (by decide +kernel)
  rw [paired, ledger, system, LTS.observe_ofStep]
  exact LTS.restrict_reachable_of_exec ⟨rfl, rfl⟩ paired_of_check hexec

theorem ledger_reachable_of_exec {p : Policy} {q : Timed × Ledger} {calls : List Call}
    (h : LTS.exec bookedStep (opening p) calls = some q) :
    (ledger noAddresses p).Reachable q := by
  rw [ledger, system, LTS.observe_ofStep]
  exact LTS.reachable_of_exec ⟨rfl, rfl⟩ h

/-- Alice's connection, acquired twice under one id. -/
def acquireTwice : List Call :=
  [.acquire alice (some "s1") (.at 0), .acquire alice (some "s1") (.at 0)]

def acquiredTwice : Timed × Ledger := LTS.after bookedStep (opening noLimits) acquireTwice

/-- **The same id acquired twice.** Two connections are counted for one session, and its
release leaves one behind that nothing can release. -/
theorem acquired_twice :
    ∃ s r t u, (ledger noAddresses noLimits).Reachable (s, r) ∧ ¬ Exact s.limiter r ∧
      s.limiter.globalTracker.activeConnections = 2 ∧ s.limiter.activeSessions.card = 1 ∧
      (ledger noAddresses noLimits).step (s, r)
        (.release "s1" (some "alice") (some "10.0.0.1")) (t, u) ∧
      active t.limiter.ipConnections "10.0.0.1" = 1 ∧ t.limiter.activeSessions = ∅ := by
  refine ⟨acquiredTwice.1, acquiredTwice.2,
    ⟨acquiredTwice.1.limiter.release "s1" (some "alice") (some "10.0.0.1"), 0⟩, _, ?_, ?_,
    by decide +kernel, by decide +kernel, ⟨?_, rfl⟩, by decide +kernel, by decide +kernel⟩
  · have hexec : LTS.exec bookedStep (opening noLimits) acquireTwice = some acquiredTwice :=
      LTS.exec_after (by decide +kernel)
    exact ledger_reachable_of_exec hexec
  · intro h
    have hglobal := h.global
    revert hglobal
    decide +kernel
  · rfl

/-! ## Limits on sessions and connections -/

/-- The release of an active id names one of its acquisitions, and the quotas of an identity
that acquires a session set `max_concurrent_connections`. -/
def Limited (I : IpModule) (s : RateLimiter) (r : Ledger) : Call → Prop
  | .acquire c sessionId _ => (named sessionId).isSome → (named c.identity).isSome →
    (truthy (s.policy.getQuotas I c).maxConcurrentConnections).isSome
  | .release id identity sourceIp =>
    id ∈ s.activeSessions → NamesAcquisition r id identity sourceIp
  | _ => True

instance (I : IpModule) (s : RateLimiter) (r : Ledger) (call : Call) :
    Decidable (Limited I s r call) := by
  cases call <;> unfold Limited <;> infer_instance

/-- No more sessions than the counter says, which is at most `n`. -/
structure Covered (s : RateLimiter) (r : Ledger) (name : Acquisition → Option String)
    (counter : String → Int) (n : Int) : Prop where
  sessions : ∀ k, (sessionsFor s r fun a => name a = some k).card ≤ counter k
  limit : ∀ k, counter k ≤ n

theorem sessionsFor_opened {s t : RateLimiter} {r : Ledger} {a : Acquisition}
    (hknown : ∀ b ∈ r, b.session ∈ s.activeSessions)
    (hsessions : t.activeSessions = insert a.session s.activeSessions) (q : Acquisition → Bool) :
    (sessionsFor t (a :: r) q).card ≤ (sessionsFor s r q).card + if q a then 1 else 0 := by
  have hsub : sessionsFor t (a :: r) q ⊆
      if q a then insert a.session (sessionsFor s r q) else sessionsFor s r q := by
    intro id hid
    obtain ⟨_, b, hb, rfl, hq⟩ := Finset.mem_filter.mp hid
    rcases List.mem_cons.mp hb with rfl | hb
    · rw [if_pos hq]
      exact Finset.mem_insert_self _ _
    · have hin : b.session ∈ sessionsFor s r q :=
        Finset.mem_filter.mpr ⟨hknown b hb, b, hb, rfl, hq⟩
      split
      · exact Finset.mem_insert_of_mem hin
      · exact hin
  refine (Finset.card_le_card hsub).trans ?_
  split
  · exact Finset.card_insert_le _ _
  · exact le_rfl

theorem sessionsFor_closed {s t : RateLimiter} {r : Ledger} {id : String}
    (hsessions : t.activeSessions = s.activeSessions.erase id) (q : Acquisition → Bool) :
    sessionsFor t (r.filter (·.session ≠ id)) q ⊆ (sessionsFor s r q).erase id := by
  intro j hj
  obtain ⟨hin, b, hb, e, hq⟩ := Finset.mem_filter.mp hj
  rw [hsessions, Finset.mem_erase] at hin
  exact Finset.mem_erase.mpr ⟨hin.1,
    Finset.mem_filter.mpr ⟨hin.2, b, (List.mem_filter.mp hb).1, e, hq⟩⟩

variable {s t : RateLimiter} {r : Ledger} {name : Acquisition → Option String}
  {counter counter' : String → Int} {n : Int}

theorem Covered.opened (h : Covered s r name counter n) {a : Acquisition}
    (hknown : ∀ b ∈ r, b.session ∈ s.activeSessions)
    (hsessions : t.activeSessions = insert a.session s.activeSessions)
    (hcounter : ∀ k, counter' k = counter k + if name a = some k then 1 else 0)
    (hroom : ∀ k, name a = some k → counter k < n) :
    Covered t (a :: r) name counter' n := by
  refine ⟨fun k => ?_, fun k => ?_⟩
  · have hcard := sessionsFor_opened hknown hsessions fun a => name a = some k
    have hold := h.sessions k
    have hnew := hcounter k
    by_cases e : name a = some k
    · simp only [e, decide_true, if_true] at hcard hnew
      omega
    · simp only [e, decide_false, Bool.false_eq_true, if_false] at hcard hnew
      omega
  · have hnew := hcounter k
    have hold := h.limit k
    by_cases e : name a = some k
    · have := hroom k e
      simp only [e, if_true] at hnew
      omega
    · simp only [e, if_false] at hnew
      omega

theorem Covered.closed (h : Covered s r name counter n) {a : Acquisition} (ha : a ∈ r)
    (hin : a.session ∈ s.activeSessions)
    (hsessions : t.activeSessions = s.activeSessions.erase a.session)
    (hcounter : ∀ k, (name a = some k → 0 < counter k) →
      counter' k = counter k - if name a = some k then 1 else 0) :
    Covered t (r.filter (·.session ≠ a.session)) name counter' n := by
  have hmem : ∀ k, name a = some k → a.session ∈ sessionsFor s r fun a => name a = some k :=
    fun k e => Finset.mem_filter.mpr ⟨hin, a, ha, rfl, decide_eq_true e⟩
  have hpos : ∀ k, name a = some k → 0 < counter k := by
    intro k e
    have hcard := Finset.card_pos.mpr ⟨_, hmem k e⟩
    have hle := h.sessions k
    omega
  refine ⟨fun k => ?_, fun k => ?_⟩
  · have hsub := Finset.card_le_card
      (sessionsFor_closed (r := r) hsessions fun a => name a = some k)
    have hold := h.sessions k
    have hnew := hcounter k (hpos k)
    by_cases e : name a = some k
    · rw [Finset.card_erase_of_mem (hmem k e)] at hsub
      have hcard := Finset.card_pos.mpr ⟨_, hmem k e⟩
      rw [if_pos e] at hnew
      omega
    · have herase := Finset.card_erase_le (s := sessionsFor s r fun a => name a = some k)
        (a := a.session)
      rw [if_neg e] at hnew
      omega
  · have hnew := hcounter k (hpos k)
    have hold := h.limit k
    split at hnew <;> omega

theorem Covered.same (h : Covered s r name counter n) (hs : SameAccounts s t)
    (hcounter : ∀ k, counter' k = counter k) : Covered t r name counter' n := by
  refine ⟨fun k => ?_, fun k => (hcounter k).trans_le (h.limit k)⟩
  have hsame : sessionsFor t r (fun a => name a = some k) =
      sessionsFor s r fun a => name a = some k := by
    unfold sessionsFor
    rw [hs.sessions]
  rw [hsame, hcounter]
  exact h.sessions k

theorem covered_empty (hsessions : t.activeSessions = ∅) (hcounter : ∀ k, counter k = 0)
    (hn : 0 < n) : Covered t [] name counter n := by
  refine ⟨fun k => ?_, fun k => (hcounter k).trans_le hn.le⟩
  unfold sessionsFor
  rw [hsessions, hcounter]
  rfl

/-- Nobody has more than the quotas allow. -/
structure Within (I : IpModule) (p : Policy) (n : Int) (s : RateLimiter) (r : Ledger) : Prop where
  policy : s.policy = p
  known : ∀ a ∈ r, a.session ∈ s.activeSessions
  identity : Covered s r (·.identity) (active s.identityConnections) n
  ip : ∀ m, 0 < m → (∀ c, (p.getQuotas I c).maxConcurrentConnections = some m) →
    Covered s r (·.sourceIp) (active s.ipConnections) m

theorem truthy_some {m : Int} (h : 0 < m) : truthy (some m) = some m := by
  simp [truthy, h.ne']

theorem within_step {I : IpModule} {p : Policy} {n : Int} (hn : 0 < n)
    (hset : ∀ c, (p.getQuotas I c).maxSessionsPerIdentity = some n) {s t : RateLimiter}
    {r r' : Ledger} {call : Call} (hb : Booked (s.policy.getQuotas I) s r call t r')
    (h : Within I p n s r) (hl : Limited I s r call) : Within I p n t r' := by
  have hpolicy : t.policy = p := (policy_of_booked hb).trans h.policy
  cases hb with
  | same _ _ hs =>
    exact ⟨hpolicy, fun a ha => hs.sessions ▸ h.known a ha, h.identity.same hs hs.identity,
      fun m hm hq => (h.ip m hm hq).same hs hs.ip⟩
  | opened c sessionId now id _ u hid hu ht hip hidentity =>
    subst ht
    obtain ⟨hsessions, -⟩ := track_sessions (t := u) (c := c) hid
    rw [hu.sessions] at hsessions
    refine ⟨hpolicy, fun a ha => ?_, h.identity.opened h.known hsessions ?_ ?_,
      fun m hm hq => (h.ip m hm hq).opened h.known hsessions ?_ ?_⟩
    · rw [hsessions, Finset.mem_insert]
      exact (List.mem_cons.mp ha).imp (fun e => by rw [e]) (h.known a)
    · intro k
      rw [active_track_identity hid, hu.identity]
    · intro k hk
      by_contra hge
      refine hidentity ⟨n, k, hl (by rw [hid]; rfl) ?_, ?_, hk, not_lt.mp hge⟩
      · rw [show named c.identity = some k from hk]
        rfl
      rw [h.policy, hset, truthy_some hn]
    · intro k
      rw [active_track_ip hid, hu.ip]
    · intro k hk
      by_contra hge
      refine hip ⟨m, k, ?_, hk, not_lt.mp hge⟩
      rw [h.policy, hq, truthy_some hm]
  | closed id identity sourceIp hin =>
    obtain ⟨a, ha, rfl, hidentity, hip⟩ := hl hin
    have hsessions : (s.release a.session identity sourceIp).activeSessions =
        s.activeSessions.erase a.session := by
      rw [release_of_mem hin]
    refine ⟨hpolicy, fun b hb => ?_, h.identity.closed ha hin hsessions fun k hk => ?_,
      fun m hm hq => (h.ip m hm hq).closed ha hin hsessions fun k hk => ?_⟩
    · rw [hsessions, Finset.mem_erase]
      obtain ⟨hb, hne⟩ := List.mem_filter.mp hb
      exact ⟨of_decide_eq_true hne, h.known b hb⟩
    · rw [release_of_mem hin, ← hidentity]
      exact active_disconnect hk
    · rw [release_of_mem hin, ← hip]
      exact active_disconnect hk
  | cleared now _ _ hsessions hglobal hip hidentity =>
    refine ⟨hpolicy, fun a ha => (nomatch ha), covered_empty hsessions (fun k => ?_) hn,
      fun m hm _ => covered_empty hsessions (fun k => ?_) hm⟩
    · rw [hidentity]
      rfl
    · rw [hip]
      rfl

/-- The ledger under matching releases and acquisitions that look at the quotas. -/
def limited (I : IpModule) (p : Policy) : LTS (Timed × Ledger) Call :=
  (ledger I p).restrict fun q call => Limited I q.1.limiter q.2 call

/-- **Headline.** With at most `n` sessions for each identity and `max_concurrent_connections`
set for whoever opens one, no identity ever has more than `n` active sessions; and where the
latter is `m`, no IP more than `m` connections. -/
theorem limits_hold (I : IpModule) (p : Policy) (n : Int) (hn : 0 < n)
    (hset : ∀ c, (p.getQuotas I c).maxSessionsPerIdentity = some n) (s : Timed) (r : Ledger)
    (h : (limited I p).Reachable (s, r)) :
    (∀ k, (identitySessions s.limiter r k).card ≤ n) ∧
      ∀ m, 0 < m → (∀ c, (p.getQuotas I c).maxConcurrentConnections = some m) →
        ∀ k, (ipSessions s.limiter r k).card ≤ m ∧ active s.limiter.ipConnections k ≤ m := by
  have hI : (limited I p).Inductive fun q => Within I p n q.1.limiter q.2 := by
    refine ⟨?_, ?_⟩
    · rintro ⟨s, r⟩ ⟨hs, hr⟩
      subst hr
      rw [hs]
      exact ⟨rfl, fun a ha => (nomatch ha), covered_empty rfl (fun _ => rfl) hn,
        fun m hm _ => covered_empty rfl (fun _ => rfl) hm⟩
    · rintro ⟨s, r⟩ call ⟨t, r'⟩ h ⟨hl, hst, hr⟩
      change r' = Ledger.upd I r s call t at hr
      subst hr
      exact within_step hn hset (booked hst r) h hl
  have hwithin := hI.reachable _ h
  refine ⟨fun k => (hwithin.identity.sessions k).trans (hwithin.identity.limit k), ?_⟩
  intro m hm hq k
  have hip := hwithin.ip m hm hq
  exact ⟨(hip.sessions k).trans (hip.limit k), hip.limit k⟩

/-! ### On fixed calls -/

/-- At most one session for each identity, and two connections for each IP. -/
def oneSession : Policy :=
  .ofDefaults .default { QuotaConfig.default with
    maxSessionsPerIdentity := some 1
    maxConcurrentConnections := some 2 }

def limitedCheck (q : Timed × Ledger) (call : Call) : Bool :=
  decide (Limited noAddresses q.1.limiter q.2 call)

theorem limited_of_check (q : Timed × Ledger) (call : Call) (h : limitedCheck q call = true) :
    Limited noAddresses q.1.limiter q.2 call := of_decide_eq_true h

def acquireTwoIds : List Call :=
  [.acquire alice (some "s1") (.at 0), .acquire alice (some "s2") (.at 0)]

/-- Alice's second session is refused. -/
def oneAdmitted : Timed × Ledger :=
  LTS.after (LTS.checked limitedCheck bookedStep) (opening oneSession) acquireTwoIds

theorem limits_hold_oneAdmitted :
    ((∀ k, (identitySessions oneAdmitted.1.limiter oneAdmitted.2 k).card ≤ (1 : Int)) ∧
      ∀ m, 0 < m → (∀ c, (oneSession.getQuotas noAddresses c).maxConcurrentConnections = some m) →
        ∀ k, (ipSessions oneAdmitted.1.limiter oneAdmitted.2 k).card ≤ m ∧
          active oneAdmitted.1.limiter.ipConnections k ≤ m) ∧
      oneAdmitted.1.limiter.activeSessions = {"s1"} := by
  refine ⟨limits_hold noAddresses oneSession 1 (by decide) (fun _ => rfl) _ _ ?_,
    by decide +kernel⟩
  have hexec : LTS.exec (LTS.checked limitedCheck bookedStep) (opening oneSession)
      acquireTwoIds = some oneAdmitted := LTS.exec_after (by decide +kernel)
  rw [limited, ledger, system, LTS.observe_ofStep]
  exact LTS.restrict_reachable_of_exec ⟨rfl, rfl⟩ limited_of_check hexec

/-- At most one session for each identity. -/
def onlySessions : Policy :=
  .ofDefaults .default { QuotaConfig.default with maxSessionsPerIdentity := some 1 }

def twoAdmitted : Timed × Ledger := LTS.after bookedStep (opening onlySessions) acquireTwoIds

/-- **The limit on sessions is not looked at** when `max_concurrent_connections` is not set. -/
theorem sessions_unlimited :
    ∃ s r, (∀ c, (onlySessions.getQuotas noAddresses c).maxSessionsPerIdentity = some 1) ∧
      (ledger noAddresses onlySessions).Reachable (s, r) ∧
      (identitySessions s.limiter r "alice").card = 2 := by
  have hexec : LTS.exec bookedStep (opening onlySessions) acquireTwoIds = some twoAdmitted :=
    LTS.exec_after (by decide +kernel)
  exact ⟨twoAdmitted.1, twoAdmitted.2, fun _ => rfl, ledger_reachable_of_exec hexec,
    by decide +kernel⟩

end Wormhole.L5.ConnectionAccounting
