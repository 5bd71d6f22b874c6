import Wormhole.Core.LTS
import Wormhole.L4App.Advertisement

/-!
# The persistent server

`src/wh/wns/server.py` between its suspension points: each iteration of the
connection loop allocates a code, advertises it at the DHT node and in a file, waits
in `dilate` until a client has used the code, and serves the client. Clients, errors
and the clock come in between, in any order (`Lbl`).

* `not_republishing`: nobody starts the node's republishing, so that what is
  advertised is renewed by the next iteration only.
* `http_stays`: with the HTTP service there is no next iteration, and a code that a
  client has used stays advertised.
* `good_of_renewed`: while the last publication is younger than `ttl_seconds` and no client
  has used its code, what is advertised is usable, also after other clients have gone.
-/
namespace Wormhole.L5.WnsServer
open Wormhole.L1 Wormhole.L4.Wns

/-! ## The server -/

/-- mirrors src/wh/wns/server.py:31-36 -/
inductive ServiceType
  | ssh | http | nc | port
  deriving DecidableEq

/-- The arguments of the server; the constructor refuses an identity that cannot
sign. -/
structure Cfg (C : Crypto) where
  identity : WNSIdentity
  serviceType : ServiceType
  ttlSeconds : Int
  advertiseToFile : Bool
  seed : Bytes
  signingKey_eq : identity.signingKey = some seed
  length_verifyKey : identity.verifyKey.length = 32
  /-- What a key signs, its verify key verifies. -/
  signs : ∀ message, C.verify identity.verifyKey message (C.sign seed message) = true

def Cfg.address {C : Crypto} (cfg : Cfg C) : String := (cfg.identity.address C).text

/-- `WormholeManager`, from when its code is allocated. -/
structure WormholeManager where
  code : String
  /-- A client has used the code. -/
  used : Bool

/-- `WNSDHTNode` with its `AdvertisementServer`. -/
structure WNSDHTNode where
  advertisements : Dict String CodeAdvertisement
  publishedAds : Dict String CodeAdvertisement
  /-- `start_republishing` has been called. -/
  republishing : Bool

/-- How writing the advertise file ends: it is written, it cannot be opened, or it is opened,
which empties it, and not written. -/
inductive Written
  | whole
  | unopened
  | emptied

/-- Where the server is suspended. -/
inductive Stage
  | starting
  | allocating
  | announcing (ad : CodeAdvertisement)
  | dilating
  /-- In `_run_service`, before and after `endpoint.listen`. -/
  | listening
  | serving
  | pausing
  | closing
  | stopping
  | stopped

structure St where
  now : DateTime
  stage : Stage
  shutdown : Bool
  node : Option WNSDHTNode
  /-- What the advertise file holds; `none` is no advertisement. -/
  file : Option CodeAdvertisement
  earlier : List WormholeManager
  /-- The wormhole that is open. -/
  manager : Option WormholeManager
  /-- A client is connected. -/
  client : Bool
  /-- `_publish_advertisement` has returned. -/
  published : Bool

/-- Clocks, clients and the stop, then how each suspension ends. -/
inductive Lbl
  | tick (now : DateTime)
  | connect
  | disconnect
  | shutdown
  | started (ok : Bool)
  /-- `none` is an exception; otherwise the clock when the node verifies the
  advertisement, and how the file is written if the node does not announce. -/
  | allocated (code : Option String) (now : DateTime) (written : Written)
  | announced (ok : Bool) (written : Written)
  | dilated (ok : Bool)
  | listened (ok : Bool)
  | served
  | woke
  | closed
  | stopped
  | republish

variable (L : Lib) {C : Crypto} (cfg : Cfg C)

def init (now : DateTime) (file : Option CodeAdvertisement) : St where
  now
  stage := .starting
  shutdown := false
  node := none
  file
  earlier := []
  manager := none
  client := false
  published := false

/-- `except Exception`.
mirrors src/wh/wns/server.py:215-218 -/
def fail (s : St) : St := { s with stage := if s.shutdown then .closing else .pausing }

/-- What the file holds afterwards. -/
def Written.after {α : Type} (written : Written) (new old : Option α) : Option α :=
  match written with
  | whole => new
  | unopened => old
  | emptied => none

/-- The file is written, or an exception is caught.
mirrors src/wh/wns/server.py:112-122 -/
def finishPublish (s : St) (ad : CodeAdvertisement) (written : Written) : St :=
  { s with
    file := if cfg.advertiseToFile then written.after (some ad) s.file else s.file
    published := true
    stage := .dilating }

/-- An advertisement that the node does not verify is an exception, which is caught.
mirrors src/wh/wns/server.py:96-110; src/wh/wns/dht.py:1132-1149 -/
def publish (s : St) (code : String) (now : DateTime) (written : Written) :
    St :=
  match CodeAdvertisement.create L C cfg.identity code cfg.ttlSeconds s.now with
  | none => fail s
  | some ad =>
    match s.node, ad.verify L C now.clock .null with
    | some node, some true =>
      { s with
        now
        node := some { node with advertisements := node.advertisements.set cfg.address ad }
        stage := .announcing ad }
    | _, _ => finishPublish cfg { s with now } ad written

/-- `WormholeSSHServer` has no parameter `on_status`, and there is no
`WormholePortForwarder` in `wh.ssh.server`: both are exceptions.
mirrors src/wh/wns/server.py:124-175 (`_run_service`) -/
def runService (s : St) : St :=
  match cfg.serviceType with
  | .ssh => fail s
  | .port => fail s
  | .http => { s with stage := .listening }
  | .nc => { s with stage := .listening }

/-- What is published is added again; no callback is set.
mirrors src/wh/wns/dht.py:1277-1305 (`_republish_loop`) -/
def WNSDHTNode.republish (node : WNSDHTNode) : WNSDHTNode :=
  { node with
    advertisements := node.publishedAds.entries.foldl (fun ads e => ads.set e.1 e.2)
      node.advertisements }

/-- mirrors src/wh/wns/server.py:177-255; src/wh/wns/dht.py:1157-1158 -/
def step (s : St) : Lbl → Option St
  | .tick now => if s.now.clock ≤ now.clock then some { s with now } else none
  | .connect =>
    match s.manager, s.client with
    | some m, false => some { s with manager := some { m with used := true }, client := true }
    | _, _ => none
  | .disconnect => if s.client then some { s with client := false } else none
  | .shutdown => some { s with shutdown := true }
  | .started ok =>
    match s.stage with
    | .starting => some {
        s with
        node := if ok then some ⟨.empty, .empty, false⟩ else none
        stage := if s.shutdown then .stopping else .allocating }
    | _ => none
  | .allocated code now written =>
    match s.stage, code with
    | .allocating, none => some (fail s)
    | .allocating, some code =>
      if s.now.clock ≤ now.clock then
        some (publish L cfg { s with manager := some ⟨code, false⟩ } code now written)
      else none
    | _, _ => none
  | .announced ok written =>
    match s.stage with
    | .announcing ad =>
      let publishedAds (node : WNSDHTNode) :=
        if ok then node.publishedAds.set cfg.address ad else node.publishedAds
      some (finishPublish cfg { s with
        node := s.node.map fun node => { node with publishedAds := publishedAds node } } ad written)
    | _ => none
  | .dilated ok =>
    match s.stage with
    | .dilating =>
      if ok then
        if s.manager.any (·.used) then some (runService cfg s) else none
      else some (fail s)
    | _ => none
  | .listened ok =>
    match s.stage with
    | .listening => some (if ok then { s with stage := .serving } else fail s)
    | _ => none
  | .served =>
    -- `HTTPProxyHandler.run` waits for an event that nobody sets
    match s.stage, cfg.serviceType with
    | .serving, .nc => some { s with stage := .closing }
    | _, _ => none
  | .woke =>
    match s.stage with
    | .pausing => some { s with stage := .closing }
    | _ => none
  | .closed =>
    match s.stage with
    | .closing => some {
        s with
        earlier := s.earlier ++ s.manager.toList
        manager := none
        client := false
        stage := if s.shutdown then .stopping else .allocating }
    | _ => none
  | .stopped =>
    match s.stage with
    | .stopping => some { s with stage := .stopped, node := none }
    | _ => none
  | .republish =>
    match s.node with
    | some node => if node.republishing then some { s with node := some node.republish } else none
    | none => none

/-- The server, from any moment and any advertise file. -/
def lts : LTS St Lbl := .ofStep (fun s => ∃ now file, s = init now file) (step L cfg)

/-! ## What is advertised -/

def St.managers (s : St) : List WormholeManager := s.earlier ++ s.manager.toList

/-- The node holds the advertisement for the server's address, or the file does. -/
def Holds (s : St) (ad : CodeAdvertisement) : Prop :=
  (∃ node, s.node = some node ∧ node.advertisements.get? cfg.address = some ad) ∨
    cfg.advertiseToFile = true ∧ s.file = some ad

/-- Unexpired, and with the code of a wormhole that no client has used. -/
structure Usable (s : St) (ad : CodeAdvertisement) : Prop where
  unexpired : ad.isExpired s.now.clock = some false
  known : ∃ m ∈ s.managers, ad.code = .str m.code
  unused : ∀ m ∈ s.managers, ad.code = .str m.code → m.used = false

/-- A node that runs holds an advertisement and so does the file, when there is to be
one, and each is usable. -/
structure Advertises (s : St) : Prop where
  node : ∀ node, s.node = some node → (node.advertisements.get? cfg.address).isSome = true
  file : cfg.advertiseToFile = true → s.file.isSome = true
  usable : ∀ ad, Holds cfg s ad → Usable s ad

/-- After the first publication and before the stop, when no client is connected. -/
def Good (s : St) : Prop :=
  s.published = true → s.shutdown = false → s.client = false → Advertises cfg s

/-! ## What was published -/

/-- A code, and the clock when it was advertised. -/
structure Publication where
  code : String
  created : DateTime

/-- The last publications that the node took and that the file was written with, and the codes
that clients have used. -/
structure Log where
  node : Option Publication := none
  file : Option Publication := none
  used : List String := []

/-- The record of a step. -/
def Log.record (h : Log) (s : St) (l : Lbl) (t : St) : Log :=
  let wrote (written : Written) (p : Option Publication) :=
    if cfg.advertiseToFile then written.after p h.file else h.file
  match l with
  | .connect => { h with used := h.used ++ s.manager.toList.map (·.code) }
  | .allocated (some code) _ written =>
    match t.stage with
    | .announcing _ => { h with node := some ⟨code, s.now⟩ }
    | .dilating => { h with file := wrote written (some ⟨code, s.now⟩) }
    | _ => h
  | .announced _ written => { h with file := wrote written h.node }
  | _ => h

def logged : LTS (St × Log) Lbl := (lts L cfg).observe {} (Log.record cfg)

/-- Younger than `ttl_seconds`, and no client has used its code. -/
def Publication.Fresh (p : Publication) (now : DateTime) (h : Log) : Prop :=
  (∃ expires, L.later p.created cfg.ttlSeconds = some expires ∧
    reached now.clock expires = some false) ∧ p.code ∉ h.used

/-- The last publications at the node that runs and in the file that is to be written are
fresh. -/
structure Renewed (s : St) (h : Log) : Prop where
  node : s.node.isSome = true → ∃ p, h.node = some p ∧ p.Fresh L cfg s.now h
  file : cfg.advertiseToFile = true → ∃ p, h.file = some p ∧ p.Fresh L cfg s.now h

/-- The advertisement of a publication. -/
def Publication.ad (p : Publication) : Option CodeAdvertisement :=
  CodeAdvertisement.create L C cfg.identity p.code cfg.ttlSeconds p.created

/-! ## Publishing -/

variable {L} {cfg}

/-- What is created has the code, and the node verifies it while it is not expired. -/
theorem create_verifies {code : String} {now : DateTime} {ad : CodeAdvertisement}
    (h : CodeAdvertisement.create L C cfg.identity code cfg.ttlSeconds now = some ad) :
    ad.code = .str code ∧ ∀ clock, ad.isExpired clock = some false →
      ad.verify L C clock .null = some true := by
  simp only [CodeAdvertisement.create, cfg.signingKey_eq, Option.bind_eq_bind, Option.bind_some,
    Option.pure_def] at h
  obtain ⟨expires, -, h⟩ := Option.bind_eq_some_iff.mp h
  cases h
  refine ⟨rfl, fun clock hexp => ?_⟩
  have haddress : isText (deriveAddress C cfg.identity.verifyKey).text
      (.str (cfg.identity.address C).text) = true := isText_iff.mpr rfl
  unfold CodeAdvertisement.verify
  rw [hexp]
  simp only [cfg.length_verifyKey, ne_eq, not_true_eq_false, if_false, haddress, Bool.not_true,
    Bool.false_eq_true, Json.truthy, false_and]
  rw [identityVerify_iff (C.length_sign _ _)]
  exact congrArg some (cfg.signs _)

/-- The advertisement of a fresh publication is not expired. -/
theorem ad_unexpired {p : Publication} {ad : CodeAdvertisement} {now : DateTime} {h : Log}
    (had : p.ad L cfg = some ad) (hfresh : p.Fresh L cfg now h) :
    ad.isExpired now.clock = some false := by
  obtain ⟨⟨expires, hlater, hreached⟩, -⟩ := hfresh
  simp only [Publication.ad, CodeAdvertisement.create, cfg.signingKey_eq, Option.bind_eq_bind,
    Option.bind_some, Option.pure_def, hlater, Option.some.injEq] at had
  rw [← had]
  exact hreached

/-! ## Nobody republishes -/

/-- Nobody has called `start_republishing`. -/
def Quiet (s : St) : Prop := ∀ node, s.node = some node → node.republishing = false

theorem quiet_publish {s : St} (hq : Quiet s) (code : String) (now : DateTime)
    (written : Written) : Quiet (publish L cfg s code now written) := by
  unfold publish
  split
  · exact hq
  · split
    · rename_i node hnode _
      intro node' hn
      cases hn
      exact hq node hnode
    · exact hq

theorem quiet_step {s t : St} {l : Lbl} (hq : Quiet s) (h : step L cfg s l = some t) :
    Quiet t := by
  cases l with
  | shutdown =>
    cases h
    exact hq
  | tick | disconnect | connect | closed | served | woke =>
    simp only [step.eq_def] at h
    split at h
    · cases h
      exact hq
    · cases h
  | started ok =>
    simp only [step.eq_def] at h
    split at h
    · cases h
      intro node hn
      cases ok with
      | false => cases hn
      | true =>
        cases hn
        rfl
    · cases h
  | allocated code now written =>
    simp only [step.eq_def] at h
    split at h
    · cases h
      exact hq
    · rename_i code _
      split at h
      · cases h
        have hnew : Quiet { s with manager := some ⟨code, false⟩ } := hq
        exact quiet_publish hnew code now written
      · cases h
    · cases h
  | announced ok written =>
    simp only [step.eq_def] at h
    split at h
    · cases h
      intro node hn
      obtain ⟨node', hn', rfl⟩ := Option.map_eq_some_iff.mp hn
      exact hq node' hn'
    · cases h
  | dilated ok =>
    simp only [step.eq_def] at h
    split at h
    · split at h
      · split at h
        · cases h
          unfold runService
          split <;> exact hq
        · cases h
      · cases h
        exact hq
    · cases h
  | listened ok =>
    simp only [step.eq_def] at h
    split at h
    · cases h
      split
      · exact hq
      · exact hq
    · cases h
  | stopped =>
    simp only [step.eq_def] at h
    split at h
    · cases h
      intro node hn
      cases hn
    · cases h
  | republish =>
    simp only [step.eq_def] at h
    split at h
    · rename_i node hnode
      split at h
      · cases h
        intro node' hn
        cases hn
        exact hq node hnode
      · cases h
    · cases h

theorem not_republishing : ∀ s, (lts L cfg).Reachable s → Quiet s := by
  have hI : (lts L cfg).Inductive Quiet := by
    refine ⟨?_, fun s l t hq h => quiet_step hq h⟩
    intro s hs
    obtain ⟨now, file, rfl⟩ := hs
    intro node hn
    cases hn
  exact hI.reachable

/-! ## What is held is what was published -/

/-- The node and the file hold the last publications, whose codes are those of wormholes, and
the wormholes that were used are those of the codes that were. -/
structure Inv (L : Lib) (cfg : Cfg C) (s : St) (h : Log) : Prop where
  used : ∀ m ∈ s.managers, m.used = true → m.code ∈ h.used
  node : ∀ node p, s.node = some node → h.node = some p →
    ∃ ad, p.ad L cfg = some ad ∧ node.advertisements.get? cfg.address = some ad
  file : cfg.advertiseToFile = true → ∀ p, h.file = some p →
    ∃ ad, p.ad L cfg = some ad ∧ s.file = some ad
  known : ∀ p, h.node = some p ∨ h.file = some p → ∃ m ∈ s.managers, m.code = p.code
  starting : s.stage = .starting → h.node = none
  between : s.stage = .starting ∨ s.stage = .allocating → s.manager = none
  announcing : ∀ ad, s.stage = .announcing ad → ∃ p, h.node = some p ∧ p.ad L cfg = some ad

theorem inv_init (now : DateTime) (file : Option CodeAdvertisement) :
    Inv L cfg (init now file) {} where
  used m hm := by simp [St.managers, init] at hm
  node node p hn := by cases hn
  file _ p hp := by cases hp
  known p hp := by rcases hp with hp | hp <;> cases hp
  starting _ := rfl
  between _ := rfl
  announcing ad hs := by cases hs

/-- The clock, the client, the flags and what the node republishes do not matter. -/
theorem Inv.of_same {s t : St} {h : Log} (hi : Inv L cfg s h) (hmanagers : t.managers = s.managers)
    (hfile : t.file = s.file)
    (hnode : ∀ node, t.node = some node → ∃ node', s.node = some node' ∧
      node.advertisements = node'.advertisements)
    (hstage : t.stage = s.stage ∧ t.manager = s.manager ∨
      t.stage ≠ .starting ∧ (t.stage = .allocating → t.manager = none) ∧
        ∀ ad, t.stage ≠ .announcing ad) : Inv L cfg t h where
  used := by rw [hmanagers]; exact hi.used
  node node p hn hp := by
    obtain ⟨node', hn', heq⟩ := hnode node hn
    rw [heq]
    exact hi.node node' p hn' hp
  file := by rw [hfile]; exact hi.file
  known := by rw [hmanagers]; exact hi.known
  starting hs := by
    rcases hstage with ⟨hsame, -⟩ | ⟨hne, -, -⟩
    · exact hi.starting (hsame.symm.trans hs)
    · exact absurd hs hne
  between hs := by
    rcases hstage with ⟨hsame, hmanager⟩ | ⟨hne, hnone, -⟩
    · rw [hmanager]
      exact hi.between (by rwa [hsame] at hs)
    · exact hnone (hs.resolve_left hne)
  announcing ad hs := by
    rcases hstage with ⟨hsame, -⟩ | ⟨-, -, hne⟩
    · exact hi.announcing ad (hsame.symm.trans hs)
    · exact absurd hs (hne ad)

theorem Inv.goTo {s : St} {h : Log} (hi : Inv L cfg s h) {stage : Stage}
    (hstarting : stage ≠ .starting) (hallocating : stage ≠ .allocating)
    (hannouncing : ∀ ad, stage ≠ .announcing ad) : Inv L cfg { s with stage } h :=
  hi.of_same rfl rfl (fun node hn => ⟨node, hn, rfl⟩)
    (.inr ⟨hstarting, fun hs => absurd hs hallocating, hannouncing⟩)

theorem Inv.fail {s : St} {h : Log} (hi : Inv L cfg s h) : Inv L cfg (fail s) h := by
  unfold WnsServer.fail
  split
  · exact hi.goTo nofun nofun (fun _ hs => by cases hs)
  · exact hi.goTo nofun nofun (fun _ hs => by cases hs)

theorem Inv.runService {s : St} {h : Log} (hi : Inv L cfg s h) :
    Inv L cfg (runService cfg s) h := by
  unfold WnsServer.runService
  split
  · exact hi.fail
  · exact hi.fail
  · exact hi.goTo nofun nofun (fun _ hs => by cases hs)
  · exact hi.goTo nofun nofun (fun _ hs => by cases hs)

/-- A code is allocated; no stage is between wormholes then. -/
theorem Inv.allocate {s : St} {h : Log} (hi : Inv L cfg s h) (hstage : s.stage = .allocating)
    (code : String) (stage : Stage) (hstarting : stage ≠ .starting)
    (hallocating : stage ≠ .allocating) (hannouncing : ∀ ad, stage ≠ .announcing ad) :
    Inv L cfg { s with manager := some ⟨code, false⟩, stage } h := by
  have hmanagers : s.managers = s.earlier := by
    rw [St.managers, hi.between (.inr hstage)]
    exact List.append_nil _
  refine ⟨?_, hi.node, hi.file, ?_, fun hs => absurd hs hstarting, ?_,
    fun ad hs => absurd hs (hannouncing ad)⟩
  · intro m hm hused
    rcases List.mem_append.mp hm with hm | hm
    · exact hi.used m (by rwa [hmanagers]) hused
    · rw [List.mem_singleton.mp hm] at hused
      cases hused
  · intro p hp
    obtain ⟨m, hm, hcode⟩ := hi.known p hp
    rw [hmanagers] at hm
    exact ⟨m, List.mem_append_left _ hm, hcode⟩
  · intro hs
    rcases hs with hs | hs
    · exact absurd hs hstarting
    · exact absurd hs hallocating

/-- The end of a publication: how the file was written is recorded. -/
theorem Inv.finishPublish {s : St} {h : Log} (hi : Inv L cfg s h) {p : Publication}
    {ad : CodeAdvertisement} (had : p.ad L cfg = some ad)
    (hknown : ∃ m ∈ s.managers, m.code = p.code) (written : Written) :
    Inv L cfg (finishPublish cfg s ad written) { h with
      file := if cfg.advertiseToFile then written.after (some p) h.file else h.file } := by
  refine ⟨hi.used, hi.node, ?_, ?_, nofun, ?_, fun _ hs => by cases hs⟩
  · intro hto q hq
    simp only [WnsServer.finishPublish, hto, if_true] at hq ⊢
    cases written with
    | whole =>
      cases hq
      exact ⟨ad, had, rfl⟩
    | unopened => exact hi.file hto q hq
    | emptied => cases hq
  · intro q hq
    rcases hq with hq | hq
    · exact hi.known q (.inl hq)
    · dsimp only at hq
      split at hq
      · cases written with
        | whole =>
          cases hq
          exact hknown
        | unopened => exact hi.known q (.inr hq)
        | emptied => cases hq
      · exact hi.known q (.inr hq)
  · intro hs
    rcases hs with hs | hs <;> cases hs

/-! ## One step -/

theorem inv_connect {s t : St} {h : Log} (hi : Inv L cfg s h)
    (hstep : step L cfg s .connect = some t) : Inv L cfg t (h.record cfg s .connect t) := by
  simp only [step.eq_def] at hstep
  split at hstep
  · rename_i m hm _
    cases hstep
    have hcodes : ∀ code, (∃ m ∈ s.managers, m.code = code) →
        ∃ m' ∈ s.earlier ++ [{ m with used := true }], m'.code = code := by
      intro code hcode
      obtain ⟨m', hm', rfl⟩ := hcode
      rw [St.managers, hm] at hm'
      rcases List.mem_append.mp hm' with hm' | hm'
      · exact ⟨m', List.mem_append_left _ hm', rfl⟩
      · rw [List.mem_singleton.mp hm']
        exact ⟨_, List.mem_append_right _ List.mem_cons_self, rfl⟩
    refine ⟨?_, hi.node, hi.file, fun p hp => hcodes p.code (hi.known p hp), hi.starting, ?_,
      hi.announcing⟩
    · intro m' hm' hused
      refine List.mem_append.mpr ?_
      rcases List.mem_append.mp hm' with hm' | hm'
      · exact .inl (hi.used m' (List.mem_append_left _ hm') hused)
      · rw [List.mem_singleton.mp hm', hm]
        exact .inr List.mem_cons_self
    · intro hs
      rw [hi.between hs] at hm
      cases hm
  · cases hstep

theorem inv_allocated {s t : St} {h : Log} (hi : Inv L cfg s h) {code : Option String}
    {now : DateTime} {written : Written}
    (hstep : step L cfg s (.allocated code now written) = some t) :
    Inv L cfg t (h.record cfg s (.allocated code now written) t) := by
  simp only [step.eq_def] at hstep
  split at hstep
  · cases hstep
    exact hi.fail
  · rename_i code hstage
    split at hstep
    · cases hstep
      have hknown : ∃ m ∈ s.earlier ++ [⟨code, false⟩], m.code = code :=
        ⟨⟨code, false⟩, List.mem_append_right _ List.mem_cons_self, rfl⟩
      unfold publish
      cases had : CodeAdvertisement.create L C cfg.identity code cfg.ttlSeconds s.now with
      | none =>
        unfold WnsServer.fail
        dsimp only
        split
        · exact hi.allocate hstage code .closing nofun nofun (fun _ hs => by cases hs)
        · exact hi.allocate hstage code .pausing nofun nofun (fun _ hs => by cases hs)
      | some ad =>
        have hnew := hi.allocate hstage code .dilating nofun nofun (fun _ hs => by cases hs)
        dsimp only
        split
        · rename_i node hnode _
          have hget : (node.advertisements.set cfg.address ad).get? cfg.address = some ad :=
            Dict.get?_set_self _ _ _
          refine ⟨hnew.used, ?_, hnew.file, ?_, nofun, ?_, ?_⟩
          · intro node' p hn hp
            cases hn
            cases hp
            exact ⟨ad, had, hget⟩
          · intro p hp
            rcases hp with hp | hp
            · cases hp
              exact hknown
            · exact hnew.known p (.inr hp)
          · intro hs
            rcases hs with hs | hs <;> cases hs
          · intro ad' hs
            cases hs
            exact ⟨⟨code, s.now⟩, rfl, had⟩
        · have hdone := hnew.finishPublish (p := ⟨code, s.now⟩) had hknown written
          exact hdone.of_same rfl rfl (fun node hn => ⟨node, hn, rfl⟩) (.inl ⟨rfl, rfl⟩)
    · cases hstep
  · cases hstep

theorem inv_announced {s t : St} {h : Log} (hi : Inv L cfg s h) {ok : Bool} {written : Written}
    (hstep : step L cfg s (.announced ok written) = some t) :
    Inv L cfg t (h.record cfg s (.announced ok written) t) := by
  simp only [step.eq_def] at hstep
  split at hstep
  · rename_i ad hstage
    cases hstep
    obtain ⟨p, hp, had⟩ := hi.announcing ad hstage
    have hmoved : Inv L cfg { s with
        node := s.node.map fun node => { node with
          publishedAds := if ok = true then node.publishedAds.set cfg.address ad
            else node.publishedAds } } h := by
      refine hi.of_same rfl rfl (fun node hn => ?_) (.inl ⟨rfl, rfl⟩)
      obtain ⟨node', hn', rfl⟩ := Option.map_eq_some_iff.mp hn
      exact ⟨node', hn', rfl⟩
    have hdone := hmoved.finishPublish had (hi.known p (.inl hp)) written
    rw [← hp] at hdone
    exact hdone
  · cases hstep

theorem inv_closed {s t : St} {h : Log} (hi : Inv L cfg s h)
    (hstep : step L cfg s .closed = some t) : Inv L cfg t h := by
  simp only [step.eq_def] at hstep
  split at hstep
  · cases hstep
    have hmanagers : s.earlier ++ s.manager.toList ++ [] = s.managers := List.append_nil _
    refine hi.of_same hmanagers rfl (fun node hn => ⟨node, hn, rfl⟩) (.inr ⟨?_, fun _ => rfl, ?_⟩)
    · dsimp only
      split <;> exact nofun
    · intro ad
      dsimp only
      split <;> exact nofun
  · cases hstep

theorem inv_started {s t : St} {h : Log} (hi : Inv L cfg s h) {ok : Bool}
    (hstep : step L cfg s (.started ok) = some t) : Inv L cfg t h := by
  simp only [step.eq_def] at hstep
  split at hstep
  · rename_i hstage
    cases hstep
    have hnone := hi.starting hstage
    refine ⟨hi.used, ?_, hi.file, hi.known, fun _ => hnone, fun _ => hi.between (.inl hstage), ?_⟩
    · intro node p _ hp
      rw [hnone] at hp
      cases hp
    · intro ad hs
      dsimp only at hs
      split at hs <;> cases hs
  · cases hstep

/-- Every step keeps the invariant, with what it records. -/
theorem inv_step {s t : St} {h : Log} {l : Lbl} (hq : Quiet s) (hi : Inv L cfg s h)
    (hstep : step L cfg s l = some t) : Inv L cfg t (h.record cfg s l t) := by
  have hsame : ∀ node, s.node = some node → ∃ node', s.node = some node' ∧
      node.advertisements = node'.advertisements := fun node hn => ⟨node, hn, rfl⟩
  cases l with
  | connect => exact inv_connect hi hstep
  | allocated => exact inv_allocated hi hstep
  | announced => exact inv_announced hi hstep
  | closed => exact inv_closed hi hstep
  | started => exact inv_started hi hstep
  | shutdown =>
    cases hstep
    exact hi.of_same rfl rfl hsame (.inl ⟨rfl, rfl⟩)
  | tick | disconnect =>
    simp only [step.eq_def] at hstep
    split at hstep
    · cases hstep
      exact hi.of_same rfl rfl hsame (.inl ⟨rfl, rfl⟩)
    · cases hstep
  | dilated ok =>
    simp only [step.eq_def] at hstep
    split at hstep
    · split at hstep
      · split at hstep
        · cases hstep
          exact hi.runService
        · cases hstep
      · cases hstep
        exact hi.fail
    · cases hstep
  | listened ok =>
    simp only [step.eq_def] at hstep
    split at hstep
    · cases hstep
      split
      · exact hi.goTo nofun nofun (fun _ hs => by cases hs)
      · exact hi.fail
    · cases hstep
  | served | woke =>
    simp only [step.eq_def] at hstep
    split at hstep
    · cases hstep
      exact hi.goTo nofun nofun (fun _ hs => by cases hs)
    · cases hstep
  | stopped =>
    simp only [step.eq_def] at hstep
    split at hstep
    · cases hstep
      exact hi.of_same rfl rfl (fun node hn => by cases hn) (.inr ⟨nofun, nofun, fun _ => nofun⟩)
    · cases hstep
  | republish =>
    simp only [step.eq_def] at hstep
    split at hstep
    · rename_i node hnode
      split at hstep
      · rename_i hrep
        rw [hq node hnode] at hrep
        cases hrep
      · cases hstep
    · cases hstep

/-! ## Runs -/

/-- A server that serves, a code that was used, and who holds what. -/
structure Serves (code : String) (node : Option WNSDHTNode) (file : Option CodeAdvertisement)
    (s : St) : Prop where
  stage : s.stage = .serving
  node : s.node = node
  file : s.file = file
  used : ∃ m, s.manager = some m ∧ m.code = code ∧ m.used = true

/-- `HTTPProxyHandler.run` does not return. -/
theorem http_step (hhttp : cfg.serviceType = .http) {code : String} {node : Option WNSDHTNode}
    {file : Option CodeAdvertisement} {s t : St} {l : Lbl} (hq : Quiet s)
    (hs : Serves code node file s) (h : step L cfg s l = some t) : Serves code node file t := by
  obtain ⟨hstage, hnode, hfile, m, hm, hcode, hused⟩ := hs
  cases l with
  | started | announced | dilated | listened | woke | closed | stopped =>
    simp [step.eq_def, hstage] at h
  | allocated code now written =>
    simp [step.eq_def, hstage] at h
  | served =>
    simp [step.eq_def, hstage, hhttp] at h
  | shutdown =>
    cases h
    exact ⟨hstage, hnode, hfile, m, hm, hcode, hused⟩
  | tick | disconnect =>
    simp only [step.eq_def] at h
    split at h
    · cases h
      exact ⟨hstage, hnode, hfile, m, hm, hcode, hused⟩
    · cases h
  | connect =>
    simp only [step.eq_def] at h
    split at h
    · rename_i m' hm' _
      cases h
      rw [hm] at hm'
      cases hm'
      exact ⟨hstage, hnode, hfile, _, rfl, hcode, rfl⟩
    · cases h
  | republish =>
    simp only [step.eq_def] at h
    split at h
    · rename_i node' hnode'
      rw [hq node' hnode'] at h
      cases h
    · cases h

/-- With the HTTP service a code that a client has used stays advertised: the server
goes on to serve, whatever becomes of the client. -/
theorem http_stays (hhttp : cfg.serviceType = .http) {s t : St} {ls : List Lbl}
    (h : (lts L cfg).Run s ls t) (hq : Quiet s) (hs : s.stage = .serving) {m : WormholeManager}
    (hm : s.manager = some m) (hused : m.used = true) {ad : CodeAdvertisement}
    (hh : Holds cfg s ad) (hcode : ad.code = .str m.code) : Holds cfg t ad ∧ ¬ Usable t ad := by
  have hserves : Quiet t ∧ Serves m.code s.node s.file t :=
    h.invariant (I := fun t => Quiet t ∧ Serves m.code s.node s.file t)
      (fun _ _ _ hi hstep => ⟨quiet_step hi.1 hstep, http_step hhttp hi.1 hi.2 hstep⟩)
      ⟨hq, hs, rfl, rfl, m, hm, rfl, hused⟩
  obtain ⟨-, -, hnode, hfile, m', hm', hcode', hused'⟩ := hserves
  refine ⟨?_, fun husable => ?_⟩
  · rw [Holds, hnode, hfile]
    exact hh
  · have hmem : m' ∈ t.managers := by
      rw [St.managers, hm']
      exact List.mem_append_right _ List.mem_cons_self
    rw [husable.unused m' hmem (by rw [hcode', hcode])] at hused'
    cases hused'

theorem inv_reachable {s : St} {h : Log} (hr : (logged L cfg).Reachable (s, h)) :
    Inv L cfg s h := by
  have hI : (logged L cfg).Inductive fun p => Quiet p.1 ∧ Inv L cfg p.1 p.2 := by
    constructor
    · intro p hp
      obtain ⟨⟨now, file, hinit⟩, hlog⟩ := hp
      rw [hinit, hlog]
      exact ⟨fun node hn => (by cases hn), inv_init now file⟩
    · intro p l q hp hstep
      obtain ⟨hstep, hlog⟩ := hstep
      rw [hlog]
      exact ⟨quiet_step hp.1 hstep, inv_step hp.1 hp.2 hstep⟩
  exact (hI.reachable _ hr).2

/-- What a fresh publication has put somewhere is usable. -/
theorem usable_of_fresh {s : St} {h : Log} (hi : Inv L cfg s h) {p : Publication}
    {ad : CodeAdvertisement} (had : p.ad L cfg = some ad)
    (hp : h.node = some p ∨ h.file = some p) (hfresh : p.Fresh L cfg s.now h) : Usable s ad := by
  have hcode := (create_verifies had).1
  refine ⟨ad_unexpired had hfresh, ?_, ?_⟩
  · obtain ⟨m, hm, hmcode⟩ := hi.known p hp
    exact ⟨m, hm, by rw [hcode, hmcode]⟩
  · intro m hm hmcode
    rw [hcode, Json.str.injEq] at hmcode
    by_contra hused
    rw [Bool.not_eq_false] at hused
    exact hfresh.2 (hmcode ▸ hi.used m hm hused)

/-- **Headline.** In every state of a run, before the stop and while no client is connected, what
is advertised is usable when the last publications, at the node that runs and in the file that is
to be written, were created less than `ttl_seconds` ago and no client has used their codes. -/
theorem good_of_renewed (L : Lib) {C : Crypto} (cfg : Cfg C) {s : St} {h : Log}
    (hr : (logged L cfg).Reachable (s, h))
    (hrenewed : s.published = true → s.shutdown = false → s.client = false →
      Renewed L cfg s h) : Good cfg s := by
  intro hp hs hc
  have hi := inv_reachable hr
  obtain ⟨hnode, hfile⟩ := hrenewed hp hs hc
  have hheld : ∀ node, s.node = some node → ∃ ad, node.advertisements.get? cfg.address = some ad ∧
      Usable s ad := by
    intro node hn
    obtain ⟨p, hlog, hfresh⟩ := hnode (by rw [hn]; rfl)
    obtain ⟨ad, had, hget⟩ := hi.node node p hn hlog
    exact ⟨ad, hget, usable_of_fresh hi had (.inl hlog) hfresh⟩
  have hwritten : cfg.advertiseToFile = true → ∃ ad, s.file = some ad ∧ Usable s ad := by
    intro hto
    obtain ⟨p, hlog, hfresh⟩ := hfile hto
    obtain ⟨ad, had, hf⟩ := hi.file hto p hlog
    exact ⟨ad, hf, usable_of_fresh hi had (.inr hlog) hfresh⟩
  refine ⟨?_, ?_, ?_⟩
  · intro node hn
    obtain ⟨ad, hget, -⟩ := hheld node hn
    rw [hget]
    rfl
  · intro hto
    obtain ⟨ad, hf, -⟩ := hwritten hto
    rw [hf]
    rfl
  · intro ad hholds
    rcases hholds with ⟨node, hn, hget⟩ | ⟨hto, hf⟩
    · obtain ⟨ad', hget', husable⟩ := hheld node hn
      rw [hget'] at hget
      cases hget
      exact husable
    · obtain ⟨ad', hf', husable⟩ := hwritten hto
      rw [hf'] at hf
      cases hf
      exact husable

/-! ## A code that waits -/

def sampleCfg : Cfg Crypto.sample where
  identity := .fromPrivateKey Crypto.sample [1] none
  serviceType := .nc
  ttlSeconds := 300
  advertiseToFile := true
  seed := [1]
  signingKey_eq := rfl
  length_verifyKey := Crypto.sample.length_publicKey [1]
  signs _ := decide_eq_true rfl

/-- What is created on New Year. -/
def sampleAd (code : String) : CodeAdvertisement where
  address := .str sampleCfg.address
  code := .str code
  timestamp := newYear
  expires := fivePast
  publicKey := Crypto.sample.publicKey [1]
  signature := Crypto.sample.sign [1] (CodeAdvertisement.createSignMessage sampleCfg.address
    code newYear fivePast)
  version := .int 1
  scopedName := .null

theorem later_fivePast : sampleLib.later newYear sampleCfg.ttlSeconds = some fivePast := by
  decide +kernel

theorem create_sampleAd (code : String) : CodeAdvertisement.create sampleLib Crypto.sample
    sampleCfg.identity code sampleCfg.ttlSeconds newYear = some (sampleAd code) := by
  simp only [CodeAdvertisement.create, sampleCfg.signingKey_eq, later_fivePast,
    Option.bind_eq_bind, Option.bind_some, Option.pure_def]
  rfl

theorem newYear_unexpired : reached newYear.clock fivePast = some false := by decide +kernel

/-- The node takes the advertisement of a code. -/
theorem publish_sampleAd {s : St} {node : WNSDHTNode} (hnow : s.now = newYear)
    (hnode : s.node = some node) (code : String) (written : Written) :
    publish sampleLib sampleCfg s code newYear written =
      { s with
        now := newYear
        node := some { node with
          advertisements := node.advertisements.set sampleCfg.address (sampleAd code) }
        stage := .announcing (sampleAd code) } := by
  have hverify := (create_verifies (create_sampleAd code)).2 newYear.clock newYear_unexpired
  unfold publish
  simp only [hnow, create_sampleAd, hnode, hverify]

/-- The code has been published, and the server waits for a client. -/
def waiting : St where
  now := newYear
  stage := .dilating
  shutdown := false
  node := some ⟨Dict.empty.set sampleCfg.address (sampleAd "7-guitar-sunset"),
    Dict.empty.set sampleCfg.address (sampleAd "7-guitar-sunset"), false⟩
  file := some (sampleAd "7-guitar-sunset")
  earlier := []
  manager := some ⟨"7-guitar-sunset", false⟩
  client := false
  published := true

def waitingLog : Log where
  node := some ⟨"7-guitar-sunset", newYear⟩
  file := some ⟨"7-guitar-sunset", newYear⟩

/-- A step from New Year on, with its record. -/
theorem logged_allocated {s : St} {h : Log} {node : WNSDHTNode} (hnow : s.now = newYear)
    (hnode : s.node = some node) (hstage : s.stage = .allocating) (code : String) :
    (logged sampleLib sampleCfg).step (s, h) (.allocated (some code) newYear .whole)
      ({ s with
          now := newYear
          manager := some ⟨code, false⟩
          node := some { node with
            advertisements := node.advertisements.set sampleCfg.address (sampleAd code) }
          stage := .announcing (sampleAd code) },
        { h with node := some ⟨code, newYear⟩ }) := by
  refine ⟨?_, ?_⟩
  · change step sampleLib sampleCfg s _ = some _
    simp only [step.eq_def, hstage, hnow, le_refl, if_true]
    exact congrArg some (publish_sampleAd
      (s := { s with stage := .allocating, manager := some ⟨code, false⟩, now := newYear })
      rfl hnode code .whole)
  · simp only [Log.record, hnow]

theorem logged_step {s t : St} {h : Log} {l : Lbl} (hs : step sampleLib sampleCfg s l = some t) :
    (logged sampleLib sampleCfg).step (s, h) l (t, h.record sampleCfg s l t) := ⟨hs, rfl⟩

theorem waiting_run : (logged sampleLib sampleCfg).Run (init newYear none, {})
    [.started true, .allocated (some "7-guitar-sunset") newYear .whole, .announced true .whole]
    (waiting, waitingLog) :=
  .cons (logged_step rfl) (.cons (logged_allocated rfl rfl rfl "7-guitar-sunset")
    (.cons (logged_step rfl) (.nil _)))

theorem init_sample : (logged sampleLib sampleCfg).init (init newYear none, {}) :=
  ⟨⟨newYear, none, rfl⟩, rfl⟩

/-- A client has come and gone, and the next code has been published. -/
def waitingAgain : St :=
  { waiting with
    node := some ⟨(Dict.empty.set sampleCfg.address (sampleAd "7-guitar-sunset")).set
        sampleCfg.address (sampleAd "9-copper-river"),
      (Dict.empty.set sampleCfg.address (sampleAd "7-guitar-sunset")).set
        sampleCfg.address (sampleAd "9-copper-river"), false⟩
    file := some (sampleAd "9-copper-river")
    earlier := [⟨"7-guitar-sunset", true⟩]
    manager := some ⟨"9-copper-river", false⟩ }

theorem waitingAgain_run : (logged sampleLib sampleCfg).Run (waiting, waitingLog)
    [.connect, .dilated true, .listened true, .disconnect, .served, .closed,
      .allocated (some "9-copper-river") newYear .whole, .announced true .whole]
    (waitingAgain, ⟨some ⟨"9-copper-river", newYear⟩, some ⟨"9-copper-river", newYear⟩,
      ["7-guitar-sunset"]⟩) :=
  .cons (logged_step rfl) (.cons (logged_step rfl) (.cons (logged_step rfl)
    (.cons (logged_step rfl) (.cons (logged_step rfl) (.cons (logged_step rfl)
      (.cons (logged_allocated rfl rfl rfl "9-copper-river")
        (.cons (logged_step rfl) (.nil _))))))))

/-- The server waits for the second client, and what it advertises is usable. -/
theorem good_waiting : Good sampleCfg waitingAgain := by
  refine good_of_renewed sampleLib sampleCfg
    ⟨_, _, init_sample, waiting_run.append waitingAgain_run⟩ fun _ _ _ => ?_
  have hfresh : Publication.Fresh sampleLib sampleCfg ⟨"9-copper-river", newYear⟩ newYear
      ⟨some ⟨"9-copper-river", newYear⟩, some ⟨"9-copper-river", newYear⟩,
        ["7-guitar-sunset"]⟩ :=
    ⟨⟨fivePast, later_fivePast, newYear_unexpired⟩, by decide⟩
  exact ⟨fun _ => ⟨_, rfl, hfresh⟩, fun _ => ⟨_, rfl, hfresh⟩⟩

/-- Five minutes go by without a client, and what is held has expired. -/
theorem expired_waiting :
    ¬ ∀ (L : Lib) (C : Crypto) (cfg : Cfg C) (s : St), (lts L cfg).Reachable s → Good cfg s := by
  intro h
  have htick : step sampleLib sampleCfg waiting (.tick fivePast) =
      some { waiting with now := fivePast } := by
    have hle : waiting.now.clock ≤ fivePast.clock := by decide +kernel
    simp only [step.eq_def, hle, if_true]
  have hwaiting : (lts sampleLib sampleCfg).Reachable waiting :=
    LTS.observe_reachable (p := (waiting, waitingLog)) ⟨_, _, init_sample, waiting_run⟩
  have hgood := h _ _ _ _ (hwaiting.step htick) rfl rfl rfl
  have husable := hgood.usable (sampleAd "7-guitar-sunset") (.inr ⟨rfl, rfl⟩)
  have hexpired : (sampleAd "7-guitar-sunset").isExpired fivePast.clock = some true := by
    change reached fivePast.clock fivePast = some true
    decide +kernel
  rw [show (sampleAd "7-guitar-sunset").isExpired fivePast.clock = some false from
    husable.unexpired] at hexpired
  cases hexpired

end Wormhole.L5.WnsServer
