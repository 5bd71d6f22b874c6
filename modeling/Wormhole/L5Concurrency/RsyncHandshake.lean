import Wormhole.L1Encoding.JsonText
import Wormhole.L4App.RsyncCalls

/-!
# The rsync handshake

The exchange of MANIFEST and REQUEST in `run_rsync`, `src/wh/cli/rsync.py`: the listener
sends its manifest and waits for the client's; the client scans, waits for the listener's
manifest, sends its own and waits for the request. What the listener asks for is any
function of the manifest it gets. The connection stays up, and it is not a dry run, which
ends before the client sends anything.

An exchange is at one of twelve stages, whatever chunks arrive and in whatever order; two
of them are those where the listener's manifest was dropped.

* `exchange_moves`: a step takes it to a stage that is lost only if the step dropped the
  manifest, and brings it nearer to its end.
* `exchange_length`, `completed_iff`: it comes to an end, and is then complete if and only
  if the manifest was not complete before the client's call.
* `handshake_iff`: this, with `returned_iff`.
-/
namespace Wormhole.L5.RsyncHandshake
open Wormhole.L1 Wormhole.Decoder Wormhole.L4.RsyncFrames Wormhole.L4.RsyncCalls
open Wormhole.L1.JsonText (pyReader)
open Wormhole.L4.FrameSplits (willing)

variable {φ : Type} {sys : FileSystem φ} {loads : String → Option Json}

/-! ## The exchange -/

/-- What the two send. What the listener asks for depends on the manifest it gets. -/
structure Job (loads : String → Option Json) where
  clientManifest : Content loads
  listenerManifest : Content loads
  request : Json → Content loads

/-- The frames on their way to the client. -/
def Job.toClient (job : Job loads) : Kind → Content loads
  | .manifest => job.listenerManifest
  | .request => job.request job.clientManifest.value

def Job.toListener (job : Job loads) : Kind → Content loads := fun _ => job.clientManifest

/-- The protocol objects of the two, connected. -/
structure Exchange (φ : Type) where
  client : Side φ
  listener : Side φ

def Exchange.new (fs fs' : φ) : Exchange φ := ⟨.new fs [], .new fs' []⟩

/-- The two coroutines between one `await` and the next, and arrivals. -/
inductive Lbl
  | listenerScans
  | listenerGetsManifest
  | clientCalls
  | clientGetsManifest
  | clientGetsRequest
  | toClient (n : Nat)
  | toListener (n : Nat)

variable (sys) (job : Job loads)

/-- mirrors src/wh/cli/rsync.py:411-435, 496-538 -/
def exchangeStep (e : Exchange φ) : Lbl → Option (Exchange φ)
  | .listenerScans => do
    let listener ← e.listener.call .manifest
    return ⟨e.client.receive job.listenerManifest .manifest, listener⟩
  | .listenerGetsManifest => do
    let listener ← e.listener.resume .manifest
    let manifest ← listener.returned .manifest
    return ⟨e.client.receive (job.request manifest) .request, listener⟩
  | .clientCalls => do
    let client ← e.client.call .manifest
    return { e with client := client }
  | .clientGetsManifest => do
    let client ← e.client.resume .manifest
    let client ← client.call .request
    return ⟨client, e.listener.receive job.clientManifest .manifest⟩
  | .clientGetsRequest => do
    let client ← e.client.resume .request
    return { e with client := client }
  | .toClient n => do
    let client ← e.client.arrive sys loads n
    return { e with client := client }
  | .toListener n => do
    let listener ← e.listener.arrive sys loads n
    return { e with listener := listener }

def exchange (fs fs' : φ) : LTS (Exchange φ) Lbl :=
  .ofStep (· = Exchange.new fs fs') (exchangeStep sys job)

/-- Nothing is left to do. -/
def Stuck (e : Exchange φ) : Prop := ∀ l, exchangeStep sys job e l = none

/-- Each call has returned what the other side sent. -/
structure Completed (e : Exchange φ) : Prop where
  listenerManifest : e.client.returned .manifest = some job.listenerManifest.value
  clientManifest : e.listener.returned .manifest = some job.clientManifest.value
  request : e.client.returned .request = some (job.request job.clientManifest.value).value

/-- **No manifest before the call**: the step completes the listener's MANIFEST only if the
client has called `receive_manifest`. -/
def Timely (e : Exchange φ) : Lbl → Prop
  | .toClient n => InTime job.toClient .manifest e.client (.arrive n)
  | _ => True

/-! ## Where an exchange is -/

/-- `missed` and `stranded` are where the listener's manifest was dropped, before and after
the client's call. -/
inductive Stage
  | starting
  | early
  | offered
  | expected
  | received
  | replied
  | read
  | requested
  | answered
  | complete
  | missed
  | stranded
  deriving DecidableEq, Repr

def statuses (manifest request : Status) : Kind → Status
  | .manifest => manifest
  | .request => request

def Stage.client : Stage → View
  | .starting => ⟨statuses .idle .idle, []⟩
  | .early => ⟨statuses .waiting .idle, []⟩
  | .offered => ⟨statuses .idle .idle, [.manifest]⟩
  | .expected => ⟨statuses .waiting .idle, [.manifest]⟩
  | .received => ⟨statuses .ready .idle, []⟩
  | .replied => ⟨statuses .got .waiting, []⟩
  | .read => ⟨statuses .got .waiting, []⟩
  | .requested => ⟨statuses .got .waiting, [.request]⟩
  | .answered => ⟨statuses .got .ready, []⟩
  | .complete => ⟨statuses .got .got, []⟩
  | .missed => ⟨statuses .idle .idle, []⟩
  | .stranded => ⟨statuses .waiting .idle, []⟩

def Stage.listener : Stage → View
  | .starting | .early => ⟨statuses .idle .idle, []⟩
  | .offered | .expected | .received | .missed | .stranded => ⟨statuses .waiting .idle, []⟩
  | .replied => ⟨statuses .waiting .idle, [.manifest]⟩
  | .read => ⟨statuses .ready .idle, []⟩
  | .requested | .answered | .complete => ⟨statuses .got .idle, []⟩

def Stage.Lost (g : Stage) : Prop := g = .missed ∨ g = .stranded

instance (g : Stage) : Decidable g.Lost := inferInstanceAs (Decidable (_ ∨ _))

/-- The bytes to be sent yet, and the steps of the coroutines to come. -/
def Stage.left : Stage → Nat
  | .starting => 5 + (wire job.listenerManifest .manifest).length +
      (wire job.clientManifest .manifest).length +
      (wire (job.request job.clientManifest.value) .request).length
  | .early => 4 + (wire job.listenerManifest .manifest).length +
      (wire job.clientManifest .manifest).length +
      (wire (job.request job.clientManifest.value) .request).length
  | .offered => 4 + (wire job.clientManifest .manifest).length +
      (wire (job.request job.clientManifest.value) .request).length
  | .expected | .received => 3 + (wire job.clientManifest .manifest).length +
      (wire (job.request job.clientManifest.value) .request).length
  | .replied | .read => 2 + (wire (job.request job.clientManifest.value) .request).length
  | .requested | .answered => 1
  | .missed => 1
  | .complete | .stranded => 0

/-- The exchange is at a stage. -/
structure Exchange.At (e : Exchange φ) (g : Stage) : Prop where
  client : Rep job.toClient e.client g.client
  listener : Rep job.toListener e.listener g.listener

/-- What can still happen. -/
def Exchange.measure (e : Exchange φ) (g : Stage) : Nat :=
  e.client.coming.length + e.listener.coming.length + g.left job

variable {sys} {job}

theorem Stage.client_fresh (g : Stage) : g.client.Fresh := by
  refine ⟨by cases g <;> decide, fun k hk => ?_⟩
  cases g <;> cases k <;> revert hk <;> decide

theorem Stage.listener_fresh (g : Stage) : g.listener.Fresh := by
  refine ⟨by cases g <;> decide, fun k hk => ?_⟩
  cases g <;> cases k <;> revert hk <;> decide

theorem Stage.client_idle {g : Stage} (h : g.client.status .manifest = .idle) :
    g = .starting ∨ g = .offered ∨ g = .missed := by
  revert h
  cases g <;> decide

theorem Stage.client_ready {g : Stage} (h : g.client.status .manifest = .ready) :
    g = .received := by
  revert h
  cases g <;> decide

theorem Stage.request_ready {g : Stage} (h : g.client.status .request = .ready) :
    g = .answered := by
  revert h
  cases g <;> decide

theorem Stage.listener_idle {g : Stage} (h : g.listener.status .manifest = .idle) :
    g = .starting ∨ g = .early := by
  revert h
  cases g <;> decide

theorem Stage.listener_ready {g : Stage} (h : g.listener.status .manifest = .ready) :
    g = .read := by
  revert h
  cases g <;> decide

theorem Stage.client_inbox {g : Stage} {k : Kind} (h : g.client.inbox = [k]) :
    g = .offered ∧ k = .manifest ∨ g = .expected ∧ k = .manifest ∨
      g = .requested ∧ k = .request := by
  revert h
  cases g <;> cases k <;> decide

theorem Stage.listener_inbox {g : Stage} {k : Kind} (h : g.listener.inbox = [k]) :
    g = .replied ∧ k = .manifest := by
  revert h
  cases g <;> cases k <;> decide

/-! ## Steps of the exchange -/

theorem Stage.client_short (g : Stage) : g.client.inbox.length ≤ 1 := by
  cases g <;> decide

theorem Stage.listener_short (g : Stage) : g.listener.inbox.length ≤ 1 := by
  cases g <;> decide

/-- The stage moves on with a step, and is lost by just the steps that are not in time. -/
def Moves (job : Job loads) (e e' : Exchange φ) (l : Lbl) (g : Stage) : Prop :=
  ∃ g', e'.At job g' ∧ (¬ g'.Lost ↔ ¬ g.Lost ∧ Timely job e l) ∧
    e'.measure job g' < e.measure job g

theorem lost_timely {e : Exchange φ} {l : Lbl} {g g' : Stage} (hlost : g'.Lost ↔ g.Lost)
    (hl : Timely job e l) : ¬ g'.Lost ↔ ¬ g.Lost ∧ Timely job e l := by
  rw [hlost]
  exact (and_iff_left hl).symm

theorem listenerScans_moves {e e' : Exchange φ} {g : Stage} (hat : e.At job g)
    (h : exchangeStep sys job e .listenerScans = some e') :
    Moves job e e' .listenerScans g := by
  simp only [exchangeStep, Option.bind_eq_bind, Option.bind_eq_some_iff] at h
  obtain ⟨listener, hcall, h⟩ := h
  obtain ⟨hidle, hrep⟩ := call_rep hcall hat.listener
  have hclient := receive_rep .manifest hat.client
  have hcoming := call_coming hcall
  cases h
  rcases Stage.listener_idle hidle with rfl | rfl
  · refine ⟨.offered, ⟨hclient.view rfl rfl rfl, hrep.view rfl rfl rfl⟩,
      lost_timely (by decide) trivial, ?_⟩
    simp only [Exchange.measure, Side.receive, Stage.left, List.length_append, hcoming]
    omega
  · refine ⟨.expected, ⟨hclient.view rfl rfl rfl, hrep.view rfl rfl rfl⟩,
      lost_timely (by decide) trivial, ?_⟩
    simp only [Exchange.measure, Side.receive, Stage.left, List.length_append, hcoming]
    omega

theorem clientCalls_moves {e e' : Exchange φ} {g : Stage} (hat : e.At job g)
    (h : exchangeStep sys job e .clientCalls = some e') : Moves job e e' .clientCalls g := by
  simp only [exchangeStep, Option.bind_eq_bind, Option.bind_eq_some_iff] at h
  obtain ⟨client, hcall, h⟩ := h
  obtain ⟨hidle, hrep⟩ := call_rep hcall hat.client
  have hcoming := call_coming hcall
  cases h
  rcases Stage.client_idle hidle with rfl | rfl | rfl
  · refine ⟨.early, ⟨hrep.view rfl rfl rfl, hat.listener⟩, lost_timely (by decide) trivial, ?_⟩
    simp only [Exchange.measure, Stage.left, hcoming]
    omega
  · refine ⟨.expected, ⟨hrep.view rfl rfl rfl, hat.listener⟩, lost_timely (by decide) trivial, ?_⟩
    simp only [Exchange.measure, Stage.left, hcoming]
    omega
  · refine ⟨.stranded, ⟨hrep.view rfl rfl rfl, hat.listener⟩, lost_timely (by decide) trivial, ?_⟩
    simp only [Exchange.measure, Stage.left, hcoming]
    omega

theorem clientGetsManifest_moves {e e' : Exchange φ} {g : Stage} (hat : e.At job g)
    (h : exchangeStep sys job e .clientGetsManifest = some e') :
    Moves job e e' .clientGetsManifest g := by
  simp only [exchangeStep, Option.bind_eq_bind, Option.bind_eq_some_iff] at h
  obtain ⟨resumed, hresume, client, hcall, h⟩ := h
  obtain ⟨hready, hresumed⟩ := resume_rep hresume hat.client
  obtain ⟨-, hrep⟩ := call_rep hcall hresumed
  have hlistener := receive_rep .manifest hat.listener
  have hcoming := (call_coming hcall).trans (resume_coming hresume)
  cases h
  cases Stage.client_ready hready
  refine ⟨.replied, ⟨hrep.view rfl rfl rfl, hlistener.view rfl rfl rfl⟩,
    lost_timely (by decide) trivial, ?_⟩
  simp only [Exchange.measure, Side.receive, Stage.left, List.length_append, hcoming]
  omega

theorem clientGetsRequest_moves {e e' : Exchange φ} {g : Stage} (hat : e.At job g)
    (h : exchangeStep sys job e .clientGetsRequest = some e') :
    Moves job e e' .clientGetsRequest g := by
  simp only [exchangeStep, Option.bind_eq_bind, Option.bind_eq_some_iff] at h
  obtain ⟨client, hresume, h⟩ := h
  obtain ⟨hready, hrep⟩ := resume_rep hresume hat.client
  have hcoming := resume_coming hresume
  cases h
  cases Stage.request_ready hready
  refine ⟨.complete, ⟨hrep.view rfl rfl rfl, hat.listener⟩, lost_timely (by decide) trivial, ?_⟩
  simp only [Exchange.measure, Stage.left, hcoming]
  omega

theorem listenerGetsManifest_moves {e e' : Exchange φ} {g : Stage} (hat : e.At job g)
    (h : exchangeStep sys job e .listenerGetsManifest = some e') :
    Moves job e e' .listenerGetsManifest g := by
  simp only [exchangeStep, Option.bind_eq_bind, Option.bind_eq_some_iff] at h
  obtain ⟨listener, hresume, manifest, hmanifest, h⟩ := h
  obtain ⟨hready, hrep⟩ := resume_rep hresume hat.listener
  -- it asks for what it asks for of the client's manifest
  have hgot : Shows job.toListener listener .manifest .got := by
    have hshows := hrep.shows .manifest
    rwa [View.set_self] at hshows
  have hvalue : some manifest = some job.clientManifest.value := hmanifest.symm.trans hgot.2.2
  have hclient := receive_rep .request hat.client
  have hcoming := resume_coming hresume
  cases h
  cases hvalue
  cases Stage.listener_ready hready
  refine ⟨.requested, ⟨hclient.view rfl rfl rfl, hrep.view rfl rfl rfl⟩,
    lost_timely (by decide) trivial, ?_⟩
  simp only [Exchange.measure, Side.receive, Stage.left, List.length_append, hcoming]
  omega

theorem toClient_moves {e e' : Exchange φ} {g : Stage} {n : Nat} (hat : e.At job g)
    (h : exchangeStep sys job e (.toClient n) = some e') : Moves job e e' (.toClient n) g := by
  simp only [exchangeStep, Option.bind_eq_bind, Option.bind_eq_some_iff] at h
  obtain ⟨client, harrive, h⟩ := h
  have hcoming := arrive_coming harrive
  cases h
  have hcases := arrive_short harrive hat.client g.client_fresh g.client_short
  rcases hcases with ⟨hrep, hin⟩ | ⟨k, hbox, hrep, hin⟩
  · refine ⟨g, ⟨hrep, hat.listener⟩, lost_timely Iff.rfl (hin .manifest), ?_⟩
    simp only [Exchange.measure]
    omega
  · have hshows := hat.client.shows .manifest
    rcases Stage.client_inbox hbox with ⟨rfl, rfl⟩ | ⟨rfl, rfl⟩ | ⟨rfl, rfl⟩
    · -- without a future it is dropped
      refine ⟨.missed, ⟨hrep.view rfl rfl rfl, hat.listener⟩, ?_, ?_⟩
      · have hnot : ¬ Timely job e (.toClient n) := fun ht => by
          have hcalled := (hin .manifest).mp ht rfl
          rw [hshows.1] at hcalled
          cases hcalled
        exact iff_of_false (by decide) fun hg => hnot hg.2
      · simp only [Exchange.measure, Stage.left]
        omega
    · refine ⟨.received, ⟨hrep.view rfl rfl rfl, hat.listener⟩,
        lost_timely (by decide) ((hin .manifest).mpr fun _ => hshows.1), ?_⟩
      simp only [Exchange.measure, Stage.left]
      omega
    · refine ⟨.answered, ⟨hrep.view rfl rfl rfl, hat.listener⟩,
        lost_timely (by decide) ((hin .manifest).mpr fun _ => hshows.1), ?_⟩
      simp only [Exchange.measure, Stage.left]
      omega

theorem toListener_moves {e e' : Exchange φ} {g : Stage} {n : Nat} (hat : e.At job g)
    (h : exchangeStep sys job e (.toListener n) = some e') : Moves job e e' (.toListener n) g := by
  simp only [exchangeStep, Option.bind_eq_bind, Option.bind_eq_some_iff] at h
  obtain ⟨listener, harrive, h⟩ := h
  have hcoming := arrive_coming harrive
  cases h
  have hcases := arrive_short harrive hat.listener g.listener_fresh g.listener_short
  rcases hcases with ⟨hrep, -⟩ | ⟨k, hbox, hrep, -⟩
  · refine ⟨g, ⟨hat.client, hrep⟩, lost_timely Iff.rfl trivial, ?_⟩
    simp only [Exchange.measure]
    omega
  · obtain ⟨rfl, rfl⟩ := Stage.listener_inbox hbox
    refine ⟨.read, ⟨hat.client, hrep.view rfl rfl rfl⟩, lost_timely (by decide) trivial, ?_⟩
    simp only [Exchange.measure, Stage.left]
    omega

/-- **A step of the exchange.** -/
theorem exchange_moves {e e' : Exchange φ} {g : Stage} {l : Lbl} (hat : e.At job g)
    (h : exchangeStep sys job e l = some e') : Moves job e e' l g := by
  cases l with
  | listenerScans => exact listenerScans_moves hat h
  | listenerGetsManifest => exact listenerGetsManifest_moves hat h
  | clientCalls => exact clientCalls_moves hat h
  | clientGetsManifest => exact clientGetsManifest_moves hat h
  | clientGetsRequest => exact clientGetsRequest_moves hat h
  | toClient n => exact toClient_moves hat h
  | toListener n => exact toListener_moves hat h

/-! ## Whole runs of the exchange -/

theorem at_starting (fs fs' : φ) : (Exchange.new fs fs').At job .starting := by
  refine ⟨⟨decoder.look_nil, .nil [], fun k => ?_⟩, ⟨decoder.look_nil, .nil [], fun k => ?_⟩⟩
  · cases k <;> exact ⟨rfl, rfl, rfl⟩
  · cases k <;> exact ⟨rfl, rfl, rfl⟩

/-- An exchange is at a stage all along, which is lost by the first step not in time. -/
theorem exchange_run {fs fs' : φ} {e : Exchange φ} {ls : List Lbl}
    (hrun : (exchange sys job fs fs').Run (Exchange.new fs fs') ls e) :
    ∃ g, e.At job g ∧ (¬ g.Lost ↔
      ((exchange sys job fs fs').restrict (Timely job)).Run (Exchange.new fs fs') ls e) := by
  have hstep : ∀ e l e' g, e.At job g → exchangeStep sys job e l = some e' →
      ∃ g', e'.At job g' ∧ (¬ g'.Lost ↔ ¬ g.Lost ∧ Timely job e l) := by
    intro e l e' g hat h
    obtain ⟨g', hat', hlost, -⟩ := exchange_moves hat h
    exact ⟨g', hat', hlost⟩
  obtain ⟨g, hat, hlost⟩ := LTS.Run.view_iff hstep hrun (at_starting fs fs')
  exact ⟨g, hat, hlost.trans (and_iff_right (by decide))⟩

/-- **Every exchange comes to an end**: five steps of the coroutines, and at most one
arrival for each byte. -/
theorem exchange_length {fs fs' : φ} {e : Exchange φ} {ls : List Lbl}
    (hrun : (exchange sys job fs fs').Run (Exchange.new fs fs') ls e) :
    ls.length ≤ 5 + (wire job.listenerManifest .manifest).length +
      (wire job.clientManifest .manifest).length +
      (wire (job.request job.clientManifest.value) .request).length := by
  have hstep : ∀ e l e' g, e.At job g → exchangeStep sys job e l = some e' →
      ∃ g', e'.At job g' ∧ e'.measure job g' < e.measure job g := by
    intro e l e' g hat h
    obtain ⟨g', hat', -, hlt⟩ := exchange_moves hat h
    exact ⟨g', hat', hlt⟩
  have hle := LTS.Run.length_le hstep hrun (at_starting fs fs')
  simpa only [Exchange.measure, Exchange.new, Side.new, Stage.left, List.length_nil,
    Nat.zero_add] using hle

/-- An exchange that can do nothing more is complete or stranded. -/
theorem stuck_stage {e : Exchange φ} {g : Stage} (hat : e.At job g) (h : Stuck sys job e) :
    g = .complete ∨ g = .stranded := by
  cases g with
  | complete => exact .inl rfl
  | stranded => exact .inr rfl
  | starting | offered | missed =>
    obtain ⟨t, ht⟩ := call_idle (k := .manifest) hat.client rfl
    have hnone := h .clientCalls
    simp [exchangeStep, ht] at hnone
  | early =>
    obtain ⟨t, ht⟩ := call_idle (k := .manifest) hat.listener rfl
    have hnone := h .listenerScans
    simp [exchangeStep, ht] at hnone
  | expected | requested =>
    obtain ⟨t, ht⟩ := arrive_inbox sys hat.client (by decide)
    have hnone := h (.toClient 1)
    simp [exchangeStep, ht] at hnone
  | replied =>
    obtain ⟨t, ht⟩ := arrive_inbox sys hat.listener (by decide)
    have hnone := h (.toListener 1)
    simp [exchangeStep, ht] at hnone
  | received =>
    obtain ⟨t, ht⟩ := resume_ready (k := .manifest) hat.client rfl
    obtain ⟨-, hrep⟩ := resume_rep ht hat.client
    obtain ⟨u, hu⟩ := call_idle (k := .request) hrep rfl
    have hnone := h .clientGetsManifest
    simp [exchangeStep, ht, hu] at hnone
  | read =>
    obtain ⟨t, ht⟩ := resume_ready (k := .manifest) hat.listener rfl
    obtain ⟨-, hrep⟩ := resume_rep ht hat.listener
    have hgot := (hrep.shows .manifest).2.2
    have hnone := h .listenerGetsManifest
    simp [exchangeStep, ht, hgot] at hnone
  | answered =>
    obtain ⟨t, ht⟩ := resume_ready (k := .request) hat.client rfl
    have hnone := h .clientGetsRequest
    simp [exchangeStep, ht] at hnone

theorem completed_stage {e : Exchange φ} {g : Stage} (hat : e.At job g) (h : Stuck sys job e) :
    Completed job e ↔ ¬ g.Lost := by
  rcases stuck_stage hat h with rfl | rfl
  · have hmanifest := hat.client.shows .manifest
    have hrequest := hat.client.shows .request
    have hlistener := hat.listener.shows .manifest
    exact iff_of_true ⟨hmanifest.2.2, hlistener.2.2, hrequest.2.2⟩ (by decide)
  · have hmanifest := hat.client.shows .manifest
    refine iff_of_false (fun hc => ?_) (by decide)
    have hreturned := hmanifest.2.2.symm.trans hc.listenerManifest
    cases hreturned

/-- **When the exchange completes**: at its end it is complete if and only if the listener's
manifest was not there before the client called `receive_manifest`. -/
theorem completed_iff {fs fs' : φ} {e : Exchange φ} {ls : List Lbl}
    (hrun : (exchange sys job fs fs').Run (Exchange.new fs fs') ls e) (h : Stuck sys job e) :
    Completed job e ↔
      ((exchange sys job fs fs').restrict (Timely job)).Run (Exchange.new fs fs') ls e := by
  obtain ⟨g, hat, hlost⟩ := exchange_run hrun
  rw [completed_stage hat h, hlost]

/-- **When no message of the handshake is missed.** A call returns the value of its frame if
and only if it was made before the frame was complete. An exchange comes to an end, and is
then complete if and only if the listener's manifest was not complete before the client
called `receive_manifest`. -/
theorem handshake_iff (sys : FileSystem φ) (loads : String → Option Json) :
    (∀ (contents : Kind → Content loads) (fs : φ) (first : Kind) (s : Side φ)
      (ls : List SideLbl),
      (side sys contents fs first).Run (Side.new fs (stream contents first)) ls s →
      s.coming = [] → ∀ k, s.resume k = none → s.called k = true →
      (s.returned k = some (contents k).value ↔
        ((side sys contents fs first).restrict (InTime contents k)).Run
          (Side.new fs (stream contents first)) ls s)) ∧
    ∀ (job : Job loads) (fs fs' : φ) (e : Exchange φ) (ls : List Lbl),
      (exchange sys job fs fs').Run (Exchange.new fs fs') ls e →
      ls.length ≤ 5 + (wire job.listenerManifest .manifest).length +
        (wire job.clientManifest .manifest).length +
        (wire (job.request job.clientManifest.value) .request).length ∧
      (Stuck sys job e → (Completed job e ↔
        ((exchange sys job fs fs').restrict (Timely job)).Run (Exchange.new fs fs') ls e)) := by
  constructor
  · intro contents fs first s ls hrun hcoming k hrest hcalled
    exact returned_iff hrun hcoming hrest hcalled
  · intro job fs fs' e ls hrun
    exact ⟨exchange_length hrun, completed_iff hrun⟩

/-! ## Two directories without files -/

/-- `[]` -/
def noFiles : Content pyReader.loads := ⟨[91, 93], .arr [], by rfl, by decide⟩

def emptyJob : Job pyReader.loads := ⟨noFiles, noFiles, fun _ => noFiles⟩

/-- The steps of the coroutines are tried one by one. -/
theorem stuck_of_isNone {e : Exchange φ} (hclient : e.client.coming = [])
    (hlistener : e.listener.coming = [])
    (h : ∀ l ∈ [Lbl.listenerScans, .listenerGetsManifest, .clientCalls, .clientGetsManifest,
      .clientGetsRequest], (exchangeStep sys job e l).isNone = true) : Stuck sys job e := by
  intro l
  cases l with
  | toClient n => exact congrArg (· >>= _) (arrive_nil hclient n)
  | toListener n => exact congrArg (· >>= _) (arrive_nil hlistener n)
  | _ => exact Option.isNone_iff_eq_none.mp (h _ (by simp))

instance (e : Exchange φ) (l : Lbl) : Decidable (Timely job e l) :=
  match l with
  | .toClient _ => inferInstanceAs (Decidable (_ → _))
  | .listenerScans | .listenerGetsManifest | .clientCalls | .clientGetsManifest
  | .clientGetsRequest | .toListener _ => isTrue trivial

/-- The client's call comes first. -/
def callFirst : List Lbl :=
  [.clientCalls, .listenerScans, .toClient 7, .clientGetsManifest, .toListener 7,
    .listenerGetsManifest, .toClient 7, .clientGetsRequest]

/-- The steps of `callFirst`, each of which is in time. -/
def settled : Exchange Unit :=
  LTS.after (LTS.checked (fun e l => decide (Timely emptyJob e l))
    (exchangeStep willing emptyJob)) (Exchange.new () ()) callFirst

theorem settled_completed : Completed emptyJob settled := by
  have htimely : ((exchange willing emptyJob () ()).restrict (Timely emptyJob)).Run
      (Exchange.new () ()) callFirst settled :=
    LTS.restrict_run_of_decide (LTS.exec_after (by decide +kernel))
  have hstuck : Stuck willing emptyJob settled :=
    stuck_of_isNone (by decide +kernel) (by decide +kernel) (by decide +kernel)
  have hiff := ((handshake_iff willing pyReader.loads).2 emptyJob () () _ _
    htimely.of_restrict).2 hstuck
  exact hiff.mpr htimely

/-- The listener's manifest comes first. -/
def manifestFirst : List Lbl := [.listenerScans, .toClient 7, .clientCalls]

/-- Both sides wait. -/
def stranded : Exchange Unit :=
  LTS.after (exchangeStep willing emptyJob) (Exchange.new () ()) manifestFirst

/-- **The manifest is missed.** -/
theorem manifest_missed : ¬ ∀ (sys : FileSystem Unit) (job : Job pyReader.loads)
    (e : Exchange Unit) (ls : List Lbl),
    (exchange sys job () ()).Run (Exchange.new () ()) ls e → Stuck sys job e →
    Completed job e := by
  intro h
  have hrun : (exchange willing emptyJob () ()).Run (Exchange.new () ()) manifestFirst
      stranded := LTS.run_of_exec (LTS.exec_after (by decide +kernel))
  have hstuck : Stuck willing emptyJob stranded :=
    stuck_of_isNone (by decide +kernel) (by decide +kernel) (by decide +kernel)
  have hreturned := (h willing emptyJob _ _ hrun hstuck).listenerManifest
  cases hreturned

end Wormhole.L5.RsyncHandshake
