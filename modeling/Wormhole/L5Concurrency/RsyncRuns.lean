import Wormhole.Core.LTS
import Wormhole.L4App.RsyncTransfer

/-!
# Runs of rsync

The client and the listener of `run_rsync`, each a coroutine and a protocol
object, and the two directions of the connection between them. A frame is
handled when it is delivered; a coroutine that awaits a future or `_done` goes
on in a later step. The client has no future for a manifest that is delivered
before it scans (`connecting`), and drops it.

A source that is a single file is the tree of that file. A dry run ends before
anything is sent. The connection stays up: a run reaches DONE by its frames.

* `files_finished`: in every run that ends with both sides at DONE the
  listener's files are `finalFiles`.
* `exists_finished`: such a run exists.
-/
namespace Wormhole.L5.RsyncRuns
open Wormhole.L1 Wormhole.PosixPath Wormhole.L4.Rsync

/-! ## State -/

/-- Where the client's coroutine is. -/
inductive ClientPhase
  | connecting
  | awaitingManifest
  | awaitingRequest (toDelete : List Str)
  | finished

/-- Where the listener's coroutine is. -/
inductive ListenerPhase (κ : Type)
  | connecting
  | awaitingManifest (local_ : List (Entry κ))
  | awaitingDone
  | finished

structure St (κ : Type) where
  clientPhase : ClientPhase
  client : Peer κ
  listenerPhase : ListenerPhase κ
  listener : Peer κ
  toListener : List (Frame κ)
  toClient : List (Frame κ)

/-- What a run is about: the client's tree and flag, and the listener. -/
structure Job where
  source : Tree
  delete : Bool
  host : Host

inductive Lbl
  | clientScans
  | clientCompares
  | clientSends
  | listenerScans
  | listenerRequests
  | listenerReturns
  | deliverToClient
  | deliverToListener

variable {κ : Type}

/-- The client receives no files. -/
def init (job : Job) : St κ where
  clientPhase := .connecting
  client := ⟨⟨[], [], .empty, none, 0, 0, false⟩, none, none⟩
  listenerPhase := .connecting
  listener := ⟨job.host.receiver, none, none⟩
  toListener := []
  toClient := []

/-! ## Steps -/

variable [DecidableEq κ]

/-- mirrors src/wh/cli/rsync.py:393-420 (listener), 499-555 (client) -/
def step (md5 : Bytes ↪ κ) (job : Job) (s : St κ) : Lbl → Option (St κ)
  | .clientScans =>
    match s.clientPhase with
    | .connecting => some { s with
        clientPhase := .awaitingManifest
        client := { s.client with manifestFuture := some none } }
    | _ => none
  | .clientCompares =>
    match s.clientPhase, s.client.manifestFuture with
    | .awaitingManifest, some (some remote) =>
      let local_ := scanDirectory md5 job.source.files []
      some { s with
        clientPhase := .awaitingRequest (compareManifests local_ remote job.delete).2
        client := { s.client with manifestFuture := none, requestFuture := some none }
        toListener := s.toListener ++ [.manifest local_] }
    | _, _ => none
  | .clientSends =>
    match s.clientPhase, s.client.requestFuture with
    | .awaitingRequest toDelete, some (some requested) => some { s with
        clientPhase := .finished
        client := { s.client with requestFuture := none }
        toListener := s.toListener ++ sendRequested job.source.files requested toDelete }
    | _, _ => none
  | .listenerScans =>
    match s.listenerPhase with
    | .connecting =>
      let local_ := scanDirectory md5 s.listener.receiver.files s.listener.receiver.dest
      some { s with
        listenerPhase := .awaitingManifest local_
        listener := { s.listener with manifestFuture := some none }
        toClient := s.toClient ++ [.manifest local_] }
    | _ => none
  | .listenerRequests =>
    match s.listenerPhase, s.listener.manifestFuture with
    | .awaitingManifest local_, some (some remote) => some { s with
        listenerPhase := .awaitingDone
        listener := { s.listener with manifestFuture := none }
        -- what its own flag would delete is not used
        toClient := s.toClient ++ [.request (compareManifests remote local_ false).1] }
    | _, _ => none
  | .listenerReturns =>
    match s.listenerPhase, s.listener.receiver.done with
    | .awaitingDone, true => some { s with listenerPhase := .finished }
    | _, _ => none
  | .deliverToClient =>
    match s.toClient with
    | f :: fs => some { s with client := handle s.client f, toClient := fs }
    | [] => none
  | .deliverToListener =>
    match s.toListener with
    | f :: fs => some { s with listener := handle s.listener f, toListener := fs }
    | [] => none

def lts (md5 : Bytes ↪ κ) (job : Job) : LTS (St κ) Lbl := .ofStep (· = init job) (step md5 job)

/-- Both sides are through. -/
structure Finished (s : St κ) : Prop where
  client : s.clientPhase = .finished
  listener : s.listenerPhase = .finished

/-! ## What each side has sent -/

variable {md5 : Bytes ↪ κ} {job : Job}

/-- The frames of a whole transfer. -/
def plan (md5 : Bytes ↪ κ) (job : Job) : List (Frame κ) :=
  sendRequested job.source.files (requestOf md5 job.source job.host)
    (deletionsOf md5 job.source job.host job.delete)

def sentByClient (md5 : Bytes ↪ κ) (job : Job) : ClientPhase → List (Frame κ)
  | .connecting | .awaitingManifest => []
  | .awaitingRequest _ => [.manifest (sourceManifest md5 job.source)]
  | .finished => .manifest (sourceManifest md5 job.source) :: plan md5 job

def sentByListener (md5 : Bytes ↪ κ) (job : Job) : ListenerPhase κ → List (Frame κ)
  | .connecting => []
  | .awaitingManifest _ => [.manifest (hostManifest md5 job.host)]
  | .awaitingDone | .finished =>
    [.manifest (hostManifest md5 job.host), .request (requestOf md5 job.source job.host)]

/-- The client is past the listener's manifest. -/
def ClientPhase.late : ClientPhase → Bool
  | .connecting | .awaitingManifest => false
  | .awaitingRequest _ | .finished => true

/-- What was sent is what was delivered and what is under way; futures and
phases hold what the other side sent. -/
structure Inv (md5 : Bytes ↪ κ) (job : Job) (s : St κ) : Prop where
  toListener : ∃ p, sentByClient md5 job s.clientPhase = p ++ s.toListener ∧
    s.listener.receiver = p.foldl receive job.host.receiver
  toClient : ∃ p, sentByListener md5 job s.listenerPhase = p ++ s.toClient
  clientManifest : ∀ m, s.client.manifestFuture = some (some m) →
    m = hostManifest md5 job.host ∧ s.listenerPhase ≠ .connecting
  clientRequest : ∀ r, s.client.requestFuture = some (some r) →
    r = requestOf md5 job.source job.host
  clientPast : s.clientPhase.late = true → s.listenerPhase ≠ .connecting
  toDelete : ∀ d, s.clientPhase = .awaitingRequest d →
    d = deletionsOf md5 job.source job.host job.delete
  listenerManifest : ∀ m, s.listener.manifestFuture = some (some m) →
    m = sourceManifest md5 job.source
  localManifest : ∀ m, s.listenerPhase = .awaitingManifest m → m = hostManifest md5 job.host
  returned : s.listenerPhase = .finished → s.listener.receiver.done = true

omit [DecidableEq κ] in
/-- The frames of one turn of the sending loop. -/
theorem mem_sendOne {source : Files} {x : Str} {f : Frame κ} (h : f ∈ sendOne source x) :
    (∀ m, f ≠ .manifest m) ∧ f ≠ .done := by
  unfold sendOne at h
  split at h
  · simp only [sendFile, List.mem_append, List.mem_cons, List.mem_map, List.not_mem_nil,
      or_false] at h
    obtain (rfl | ⟨c, -, rfl⟩) | rfl := h <;>
      exact ⟨fun m hm => (by cases hm), fun hd => (by cases hd)⟩
  · cases h

/-- The frames of a transfer before the last one. -/
def planBody (md5 : Bytes ↪ κ) (job : Job) : List (Frame κ) :=
  (requestOf md5 job.source job.host).flatMap (sendOne job.source.files) ++
    (if deletionsOf md5 job.source job.host job.delete = [] then []
      else [.delete ((deletionsOf md5 job.source job.host job.delete).map some)])

theorem plan_eq (md5 : Bytes ↪ κ) (job : Job) : plan md5 job = planBody md5 job ++ [.done] := rfl

theorem mem_planBody {f : Frame κ} (h : f ∈ planBody md5 job) :
    (∀ m, f ≠ .manifest m) ∧ f ≠ .done := by
  obtain h | h := List.mem_append.mp h
  · obtain ⟨x, -, hx⟩ := List.mem_flatMap.mp h
    exact mem_sendOne hx
  · split at h
    · cases h
    · rw [List.mem_singleton.mp h]
      exact ⟨nofun, nofun⟩

theorem manifest_of_mem_sentByClient {ph : ClientPhase} {m : List (Entry κ)}
    (h : .manifest m ∈ sentByClient md5 job ph) : m = sourceManifest md5 job.source := by
  cases ph with
  | connecting | awaitingManifest => cases h
  | awaitingRequest d => cases List.mem_singleton.mp h; rfl
  | finished =>
    obtain h | h := List.mem_cons.mp h
    · cases h; rfl
    · rw [plan_eq] at h
      obtain h | h := List.mem_append.mp h
      · exact absurd rfl ((mem_planBody h).1 m)
      · cases List.mem_singleton.mp h

theorem mem_sentByListener {ph : ListenerPhase κ} {f : Frame κ}
    (h : f ∈ sentByListener md5 job ph) :
    ph ≠ .connecting ∧ (f = .manifest (hostManifest md5 job.host) ∨
      f = .request (requestOf md5 job.source job.host)) := by
  cases ph with
  | connecting => cases h
  | awaitingManifest => exact ⟨(by intro h; cases h), .inl (List.mem_singleton.mp h)⟩
  | awaitingDone | finished =>
    exact ⟨(by intro h; cases h), by simpa [sentByListener] using h⟩

/-! ## Handlers -/

omit [DecidableEq κ] in
@[simp] theorem handle_receiver (pr : Peer κ) (f : Frame κ) :
    (handle pr f).receiver = receive pr.receiver f := by
  cases f <;> rfl

omit [DecidableEq κ] in
theorem setResult_eq {α : Type} {f : Option (Option α)} {x y : α}
    (h : setResult f x = some (some y)) : f = some (some y) ∨ x = y := by
  unfold setResult at h
  split at h
  · cases h; exact .inr rfl
  · exact .inl h

omit [DecidableEq κ] in
theorem handle_manifestFuture {pr : Peer κ} {f : Frame κ} {m : List (Entry κ)}
    (h : (handle pr f).manifestFuture = some (some m)) :
    pr.manifestFuture = some (some m) ∨ f = .manifest m := by
  cases f with
  | manifest files =>
    obtain h | h := setResult_eq h
    · exact .inl h
    · exact .inr (by rw [h])
  | _ => exact .inl h

omit [DecidableEq κ] in
theorem handle_requestFuture {pr : Peer κ} {f : Frame κ} {r : List Str}
    (h : (handle pr f).requestFuture = some (some r)) :
    pr.requestFuture = some (some r) ∨ f = .request r := by
  cases f with
  | request files =>
    obtain h | h := setResult_eq h
    · exact .inl h
    · exact .inr (by rw [h])
  | _ => exact .inl h

omit [DecidableEq κ] in
/-- `_done` is set by DONE and never cleared. -/
theorem receive_done (r : Receiver) (f : Frame κ) :
    (receive r f).done = true ↔ r.done = true ∨ f = .done := by
  cases f with
  | fileStart path =>
    simp only [receive, handleFileStart]
    split <;> simp
  | fileData payload =>
    simp only [receive, handleFileData]
    split <;> simp
  | fileEnd =>
    simp only [receive, handleFileEnd]
    split <;> simp
  | _ => simp [receive]

omit [DecidableEq κ] in
theorem foldl_receive_done {r : Receiver} {fs : List (Frame κ)}
    (h : (fs.foldl receive r).done = true) : r.done = true ∨ .done ∈ fs := by
  induction fs generalizing r with
  | nil => exact .inl h
  | cons f fs ih =>
    obtain h | h := ih h
    · obtain h | rfl := (receive_done r f).mp h
      · exact .inl h
      · exact .inr (List.mem_cons_self ..)
    · exact .inr (List.mem_cons_of_mem _ h)

/-! ## The invariant -/

theorem inv_init : Inv md5 job (init job) where
  toListener := ⟨[], rfl, rfl⟩
  toClient := ⟨[], rfl⟩
  clientManifest := nofun
  clientRequest := nofun
  clientPast := nofun
  toDelete := nofun
  listenerManifest := nofun
  localManifest := nofun
  returned := nofun

theorem inv_step {s t : St κ} {l : Lbl} (h : step md5 job s l = some t) (hi : Inv md5 job s) :
    Inv md5 job t := by
  obtain ⟨⟨p, hp, hrec⟩, ⟨q, hq⟩, hcm, hcr, hpast, hdel, hlm, hloc, hret⟩ := hi
  cases l with
  | clientScans =>
    simp only [step] at h
    split at h
    · rename_i hph
      cases h
      rw [hph] at hp
      exact ⟨⟨p, hp, hrec⟩, ⟨q, hq⟩, nofun, hcr, nofun, nofun, hlm, hloc, hret⟩
    · cases h
  | clientCompares =>
    simp only [step] at h
    split at h
    · rename_i remote hph hf
      cases h
      obtain ⟨rfl, hne⟩ := hcm remote hf
      rw [hph] at hp
      refine ⟨⟨p, ?_, hrec⟩, ⟨q, hq⟩, nofun, nofun, fun _ => hne, ?_, hlm, hloc, hret⟩
      · rw [← List.append_assoc, ← hp]
        rfl
      · rintro d ⟨⟩
        rfl
    · cases h
  | clientSends =>
    simp only [step] at h
    split at h
    · rename_i toDelete requested hph hf
      cases h
      rw [hcr requested hf, hdel toDelete hph]
      have hne := hpast (by rw [hph]; rfl)
      rw [hph] at hp
      refine ⟨⟨p, ?_, hrec⟩, ⟨q, hq⟩, hcm, nofun, fun _ => hne, nofun, hlm, hloc, hret⟩
      rw [← List.append_assoc, ← hp]
      rfl
    · cases h
  | listenerScans =>
    simp only [step] at h
    split at h
    · rename_i hph
      cases h
      -- nothing has been delivered yet
      have hearly : sentByClient md5 job s.clientPhase = [] := by
        cases hc : s.clientPhase with
        | connecting | awaitingManifest => rfl
        | awaitingRequest | finished => exact absurd hph (hpast (by rw [hc]; rfl))
      obtain ⟨rfl, hnil⟩ := List.append_eq_nil_iff.mp (hp.symm.trans hearly)
      have hhost : s.listener.receiver = job.host.receiver := hrec
      rw [hph] at hq
      rw [hhost]
      refine ⟨⟨[], hp, rfl⟩, ⟨q, ?_⟩, fun m hm => ⟨(hcm m hm).1, nofun⟩, hcr, fun _ => nofun,
        hdel, nofun, ?_, nofun⟩
      · rw [← List.append_assoc, ← hq]
        rfl
      · rintro m ⟨⟩
        rfl
    · cases h
  | listenerRequests =>
    simp only [step] at h
    split at h
    · rename_i local_ remote hph hf
      cases h
      rw [hlm remote hf, hloc local_ hph]
      rw [hph] at hq
      refine ⟨⟨p, hp, hrec⟩, ⟨q, ?_⟩, fun m hm => ⟨(hcm m hm).1, nofun⟩, hcr, fun _ => nofun,
        hdel, nofun, nofun, nofun⟩
      rw [← List.append_assoc, ← hq]
      rfl
    · cases h
  | listenerReturns =>
    simp only [step] at h
    split at h
    · rename_i hph hd
      cases h
      rw [hph] at hq
      exact ⟨⟨p, hp, hrec⟩, ⟨q, hq⟩, fun m hm => ⟨(hcm m hm).1, nofun⟩, hcr, fun _ => nofun,
        hdel, hlm, nofun, fun _ => hd⟩
    · cases h
  | deliverToClient =>
    simp only [step] at h
    split at h
    · rename_i f fs hfs
      cases h
      rw [hfs] at hq
      have hsent : f ∈ sentByListener md5 job s.listenerPhase := by
        rw [hq]
        simp
      obtain ⟨hne, hf⟩ := mem_sentByListener hsent
      refine ⟨⟨p, hp, hrec⟩, ⟨q ++ [f], by rw [hq]; simp⟩, fun m hm => ?_, fun r hr => ?_, hpast,
        hdel, hlm, hloc, hret⟩
      · obtain hm | rfl := handle_manifestFuture hm
        · exact hcm m hm
        · refine ⟨?_, hne⟩
          obtain hf | hf := hf <;> cases hf
          rfl
      · obtain hr | rfl := handle_requestFuture hr
        · exact hcr r hr
        · obtain hf | hf := hf <;> cases hf
          rfl
    · cases h
  | deliverToListener =>
    simp only [step] at h
    split at h
    · rename_i f fs hfs
      cases h
      rw [hfs] at hp
      have hsent : f ∈ sentByClient md5 job s.clientPhase := by
        rw [hp]
        simp
      refine ⟨⟨p ++ [f], by rw [hp]; simp, ?_⟩, ⟨q, hq⟩, hcm, hcr, hpast, hdel, fun m hm => ?_,
        hloc, fun hph => ?_⟩
      · rw [List.foldl_append, ← hrec]
        exact handle_receiver _ _
      · obtain hm | rfl := handle_manifestFuture hm
        · exact hlm m hm
        · exact manifest_of_mem_sentByClient hsent
      · rw [handle_receiver]
        exact (receive_done _ _).mpr (.inl (hret hph))
    · cases h

/-! ## Whole runs -/

theorem inv_reachable {s : St κ} (h : (lts md5 job).Reachable s) : Inv md5 job s := by
  have hI : (lts md5 job).Inductive (Inv md5 job) :=
    ⟨fun s hs => by rw [show s = init job from hs]; exact inv_init,
      fun _ _ _ hi hs => inv_step hs hi⟩
  exact hI.reachable s h

/-- The listener has handled the whole plan when it is through. -/
theorem receiver_finished {s : St κ} (hi : Inv md5 job s) (hf : Finished s) :
    s.listener.receiver = (plan md5 job).foldl receive job.host.receiver := by
  obtain ⟨p, hp, hrec⟩ := hi.toListener
  have hdone := hi.returned hf.listener
  rw [hf.client] at hp
  rw [hrec] at hdone
  obtain h | h := foldl_receive_done hdone
  · cases h
  · -- DONE is the last frame of the client
    have hlast : s.toListener = [] := by
      by_contra hne
      have hp' : (.manifest (sourceManifest md5 job.source) :: planBody md5 job) ++ [.done] =
          (p ++ s.toListener.dropLast) ++ [s.toListener.getLast hne] := by
        rw [List.append_assoc, List.dropLast_append_getLast, ← hp]
        rfl
      obtain ⟨hbody, -⟩ := List.append_inj' hp' rfl
      have hmem :
          Frame.done ∈ Frame.manifest (sourceManifest md5 job.source) :: planBody md5 job := by
        rw [hbody]
        exact List.mem_append_left _ h
      obtain h | h := List.mem_cons.mp hmem
      · cases h
      · exact (mem_planBody h).2 rfl
    rw [hlast, List.append_nil] at hp
    rw [hrec, ← hp]
    rfl

/-- **What a run leaves on the listener's side.** -/
theorem files_finished {s : St κ} (hr : (lts md5 job).Reachable s) (hf : Finished s) :
    s.listener.receiver.files = finalFiles md5 job.source job.host job.delete := by
  rw [receiver_finished (inv_reachable hr) hf]
  exact (receive_plan job.source.files _ _ rfl).files

/-- The frames under way to the listener are delivered one after another. -/
theorem run_deliver (s : St κ) (fs : List (Frame κ)) (hs : s.toListener = fs) :
    (lts md5 job).Run s (List.replicate fs.length .deliverToListener)
      { s with listener := fs.foldl handle s.listener, toListener := [] } := by
  induction fs generalizing s with
  | nil =>
    rw [show s = { s with listener := s.listener, toListener := [] } by rw [← hs]]
    exact .nil _
  | cons f fs ih =>
    have hstep : (lts md5 job).step s .deliverToListener
        { s with listener := handle s.listener f, toListener := fs } := by
      show step md5 job s .deliverToListener = _
      simp only [step, hs]
    exact .cons hstep (ih _ rfl)

omit [DecidableEq κ] in
theorem foldl_handle_receiver (pr : Peer κ) (fs : List (Frame κ)) :
    (fs.foldl handle pr).receiver = fs.foldl receive pr.receiver := by
  induction fs generalizing pr with
  | nil => rfl
  | cons f fs ih => rw [List.foldl_cons, ih, handle_receiver, List.foldl_cons]

/-- The labels of a run up to the frames of the transfer. -/
def opening : List Lbl :=
  [.clientScans, .listenerScans, .deliverToClient, .clientCompares, .deliverToListener,
    .listenerRequests, .deliverToClient, .clientSends]

theorem exec_opening (md5 : Bytes ↪ κ) (job : Job) :
    ∃ s, LTS.exec (step md5 job) (init job) opening = some s ∧ s.clientPhase = .finished ∧
      s.listenerPhase = .awaitingDone ∧ s.listener.receiver = job.host.receiver ∧
      s.toListener = plan md5 job := ⟨_, rfl, rfl, rfl, rfl, rfl⟩

/-- **Some run ends with both sides at DONE.** -/
theorem exists_finished (md5 : Bytes ↪ κ) (job : Job) :
    ∃ s, (lts md5 job).Reachable s ∧ Finished s := by
  obtain ⟨s, hs, hc, hl, hrec, hplan⟩ := exec_opening md5 job
  have hr : (lts md5 job).Reachable s := LTS.reachable_of_exec rfl hs
  have hd := hr.run (run_deliver s _ hplan)
  have hdone : ((plan md5 job).foldl receive s.listener.receiver).done = true := by
    rw [hrec]
    exact (receive_plan job.source.files _ _ rfl).done
  have hlast : (lts md5 job).step
      { s with listener := (plan md5 job).foldl handle s.listener, toListener := [] }
      .listenerReturns
      { s with
        listener := (plan md5 job).foldl handle s.listener
        toListener := []
        listenerPhase := .finished } := by
    show step md5 job _ .listenerReturns = _
    simp only [step, hl, foldl_handle_receiver, hdone]
  exact ⟨_, hd.step hlast, hc, rfl⟩

/-! ## Synchronisation and containment -/

/-- The listener when it starts. -/
def listener (host : Host) : Peer κ := ⟨host.receiver, none, none⟩

/-- **Headline.** In every run in which both sides reach DONE the destination is
in sync if and only if it is the listener's working directory and no file of the
source is a directory, or lies below a file, there, or it was in sync before.
Whatever frames a peer sends, the listener leaves the files outside
`dest_path` alone, if and only if `dest_path` is the root; frames whose paths
lead into it do. -/
theorem finished_synced_iff {s : St κ} (hr : (lts md5 job).Reachable s) (hf : Finished s) :
    (Synced job.source.files job.host.dest job.delete s.listener.receiver.files ↔
      (job.host.cwd = job.host.dest ∧ Compatible job.host job.source) ∨
        Synced job.source.files job.host.dest job.delete job.host.tree.files) ∧
    ((∀ (frames : List (Frame κ)) q, ¬ job.host.dest <+: q →
        (frames.foldl handle (listener job.host)).receiver.files.get? q =
          job.host.tree.files.get? q) ↔
      job.host.dest = []) ∧
    ∀ frames : List (Frame κ),
      (∀ f ∈ frames, ∀ x ∈ framePaths f, job.host.dest <+: locate job.host.cwd x) →
      ∀ q, ¬ job.host.dest <+: q →
        (frames.foldl handle (listener job.host)).receiver.files.get? q =
          job.host.tree.files.get? q := by
  refine ⟨?_, ?_, fun frames hp q hq => ?_⟩
  · rw [files_finished hr hf]
    exact synced_finalFiles_iff md5 job.source job.host job.delete
  · simp only [foldl_handle_receiver]
    exact contained_iff job.host
  · rw [foldl_handle_receiver]
    exact frames_outside frames hp nofun hq

/-- One file to send. -/
def oneFile : Tree where
  files := Dict.empty.set [['f']] [1]
  ne_nil := by decide
  names := by decide
  leaves := by decide

def noFiles : Tree where
  files := .empty
  ne_nil := nofun
  names := nofun
  leaves := nofun

/-- A listener for `/home/dest`, started in `cwd`. -/
def homeHost (cwd : Path) (h : ∀ c ∈ cwd, FileName c) : Host where
  cwd := cwd
  dest := ["home".toList, "dest".toList]
  tree := noFiles
  cwd_names := h
  dest_names := by decide
  cwd_dir := nofun
  dest_dir := nofun

/-- Started in `/home/dest` it is synchronised. -/
theorem finished_in_dest :
    ∃ s, (lts (Function.Embedding.refl Bytes)
        ⟨oneFile, true, homeHost ["home".toList, "dest".toList] (by decide)⟩).Reachable s ∧
      Synced oneFile.files ["home".toList, "dest".toList] true s.listener.receiver.files := by
  obtain ⟨s, hr, hf⟩ := exists_finished (Function.Embedding.refl Bytes)
    ⟨oneFile, true, homeHost ["home".toList, "dest".toList] (by decide)⟩
  -- there are no files that could be in the way
  exact ⟨s, hr, (finished_synced_iff hr hf).1.mpr (.inl ⟨rfl, fun _ _ _ hq => nomatch hq⟩)⟩

/-- Started in `/home`, it has the file there and not in `/home/dest`; and a
peer writes to `/etc`. -/
theorem finished_outside_dest :
    (∃ s, (lts (Function.Embedding.refl Bytes)
        ⟨oneFile, true, homeHost ["home".toList] (by decide)⟩).Reachable s ∧ Finished s ∧
      s.listener.receiver.files.get? ["home".toList, "dest".toList, ['f']] = none ∧
      s.listener.receiver.files.get? ["home".toList, ['f']] = some [1]) ∧
    (handle (κ := Bytes) (listener (homeHost ["home".toList] (by decide)))
      (.fileStart "/etc/x".toList)).receiver.files.get? ["etc".toList, ['x']] = some [] := by
  refine ⟨?_, by decide⟩
  obtain ⟨s, hr, hf⟩ := exists_finished (Function.Embedding.refl Bytes)
    ⟨oneFile, true, homeHost ["home".toList] (by decide)⟩
  refine ⟨s, hr, hf, ?_, ?_⟩
  · rw [files_finished hr hf]
    decide
  · rw [files_finished hr hf]
    decide

end Wormhole.L5.RsyncRuns
