import Wormhole.Core.LTS
import Wormhole.L4App.FrameSplits

/-!
# Calls and frames of the rsync handshake

`receive_manifest` and `receive_request` of `src/wh/cli/rsync.py` against the frames that
they wait for, which arrive as bytes in any chunks. A frame is handled when its last byte
arrives; a future is there from the call until its value was taken. A handler whose future
is not there drops the frame.

A `Side` is a protocol object with the stream on its way to it and the calls that its
coroutine makes. Its `View` says where each call is and which frames are on their way.

* `arrive_rep`, `call_rep`, `resume_rep`, `receive_rep`: what the steps do, in the view.
* `returned_iff`: a call returns the value of its frame if and only if it was made before
  the frame was complete.
-/
namespace Wormhole.L4.RsyncCalls
open Wormhole.L1 Wormhole.Decoder Wormhole.L4.RsyncFrames
open Wormhole.L4.FrameSplits (rsyncBytes rsyncBytes_look)

variable {φ : Type} (sys : FileSystem φ) (loads : String → Option Json)

/-! ## Frames and futures -/

inductive Kind
  | manifest
  | request
  deriving DecidableEq, Repr

def Kind.msgType : Kind → UInt8
  | .manifest => MSG_MANIFEST
  | .request => MSG_REQUEST

/-- `_manifest_future` and `_request_future`. -/
def future (p : RsyncProtocol φ) : Kind → Option (Option Json)
  | .manifest => p.manifestFuture
  | .request => p.requestFuture

def setFuture (p : RsyncProtocol φ) (f : Option (Option Json)) : Kind → RsyncProtocol φ
  | .manifest => { p with manifestFuture := f }
  | .request => { p with requestFuture := f }

@[simp] theorem future_setFuture (p : RsyncProtocol φ) (f : Option (Option Json)) (k : Kind) :
    future (setFuture p f k) k = f := by
  cases k <;> rfl

@[simp] theorem future_setFuture_ne (p : RsyncProtocol φ) (f : Option (Option Json))
    {k k' : Kind} (h : k' ≠ k) : future (setFuture p f k) k' = future p k' := by
  cases k <;> cases k' <;> first | rfl | exact absurd rfl h

/-- What a frame carries: `json.dumps` of a value, which is read back. -/
structure Content where
  payload : Bytes
  value : Json
  loads_eq : loadsPayload loads payload = .ok value
  fits : payload.length < 2 ^ 32

variable {loads}

/-- mirrors src/wh/cli/rsync.py:199-202, 211-214 -/
def frame (c : Content loads) (k : Kind) : Frame := ⟨k.msgType, c.payload⟩

/-- What `_send_message` writes. -/
def wire (c : Content loads) (k : Kind) : Bytes := rsyncBytes (frame c k)

theorem wire_look (c : Content loads) (k : Kind) (tl : Bytes) :
    decoder.look (wire c k ++ tl) = .item (frame c k) tl :=
  rsyncBytes_look (f := frame c k) c.fits tl

theorem frame_inj {c c' : Content loads} {k k' : Kind} (h : frame c k = frame c' k') : k = k' := by
  have htype : k.msgType = k'.msgType := congrArg Frame.msgType h
  cases k <;> cases k' <;> first | rfl | exact absurd htype (by decide)

/-- A frame goes to the future of its kind. -/
theorem handle_frame (p : RsyncProtocol φ) (c : Content loads) (k : Kind) :
    handle sys loads p (frame c k) =
      (setFuture p (settle loads (future p k) c.payload).1 k,
        (settle loads (future p k) c.payload).2) := by
  cases k <;> rfl

/-- It sets the value, if a future is there that has none. -/
theorem settle_content (c : Content loads) {f : Option (Option Json)}
    (hf : f = none ∨ f = some none) :
    settle loads f c.payload = (f.map fun _ => some c.value, none) := by
  rcases hf with hf | hf
  · rw [hf]
    rfl
  · rw [hf]
    simp only [settle, c.loads_eq]
    rfl

/-! ## A side -/

/-- A protocol object and the stream on its way to it. `called` are the calls that its
coroutine has made, and `returned` what they have returned. -/
structure Side (φ : Type) where
  rx : Rx (RsyncProtocol φ) UInt8
  coming : Bytes
  called : Kind → Bool
  returned : Kind → Option Json

/-- A side that has done nothing yet. -/
def Side.new (fs : φ) (coming : Bytes) : Side φ :=
  ⟨⟨init fs, []⟩, coming, fun _ => false, fun _ => none⟩

/-- `receive_manifest` or `receive_request` up to its `await`.
mirrors src/wh/cli/rsync.py:204-209, 216-221 -/
def Side.call (s : Side φ) (k : Kind) : Option (Side φ) :=
  if s.called k then none
  else some { s with
    rx := ⟨setFuture s.rx.st (some none) k, s.rx.buf⟩
    called := Function.update s.called k true }

/-- It goes on with the value. -/
def Side.resume (s : Side φ) (k : Kind) : Option (Side φ) :=
  match future s.rx.st k with
  | some (some x) => some { s with
      rx := ⟨setFuture s.rx.st none k, s.rx.buf⟩
      returned := Function.update s.returned k (some x) }
  | _ => none

variable (loads) in
/-- The next `n` bytes arrive. -/
def Side.arrive (s : Side φ) (n : Nat) : Option (Side φ) :=
  if 0 < n ∧ n ≤ s.coming.length then
    some { s with
      rx := (onData decoder (handle sys loads) s.rx (s.coming.take n)).1
      coming := s.coming.drop n }
  else none

/-- The peer writes a frame. -/
def Side.receive (s : Side φ) (c : Content loads) (k : Kind) : Side φ :=
  { s with coming := s.coming ++ wire c k }

/-! ## What a side has of each frame -/

/-- Where a call is. -/
inductive Status
  | idle
  | waiting
  | ready
  | got
  deriving DecidableEq, Repr

/-- A side seen from above: where its calls are, and the frames on their way to it. -/
structure View where
  status : Kind → Status
  inbox : List Kind

variable (contents : Kind → Content loads)

def Shows (s : Side φ) (k : Kind) : Status → Prop
  | .idle => s.called k = false ∧ future s.rx.st k = none ∧ s.returned k = none
  | .waiting => s.called k = true ∧ future s.rx.st k = some none ∧ s.returned k = none
  | .ready => s.called k = true ∧ future s.rx.st k = some (some (contents k).value) ∧
      s.returned k = none
  | .got => s.called k = true ∧ future s.rx.st k = none ∧
      s.returned k = some (contents k).value

/-- The side is as the view says. -/
structure Rep (s : Side φ) (v : View) : Prop where
  more : decoder.look s.rx.buf = .more
  inbox : decoder.Decodes (s.rx.buf ++ s.coming) (v.inbox.map fun k => frame (contents k) k) []
  shows : ∀ k, Shows contents s k (v.status k)

/-- Each frame comes once, and no call has its value before it comes. -/
structure View.Fresh (v : View) : Prop where
  nodup : v.inbox.Nodup
  early : ∀ k ∈ v.inbox, v.status k = .idle ∨ v.status k = .waiting

/-- The frame of a call is handled. Without a future it is dropped. -/
def Status.landed : Status → Status
  | .waiting => .ready
  | s => s

/-- The frames `ks` are handled, and `rest` are not yet. -/
def View.land (v : View) (ks rest : List Kind) : View :=
  ⟨fun k => if k ∈ ks then (v.status k).landed else v.status k, rest⟩

theorem View.land_mem (v : View) {ks : List Kind} (rest : List Kind) {k : Kind} (h : k ∈ ks) :
    (v.land ks rest).status k = (v.status k).landed := if_pos h

theorem View.land_notMem (v : View) {ks : List Kind} (rest : List Kind) {k : Kind}
    (h : k ∉ ks) : (v.land ks rest).status k = v.status k := if_neg h

/-- A call or its end, in the view. -/
def View.set (v : View) (k : Kind) (st : Status) : View := ⟨Function.update v.status k st, v.inbox⟩

@[simp] theorem View.set_self (v : View) (k : Kind) (st : Status) : (v.set k st).status k = st :=
  Function.update_self ..

theorem View.set_ne (v : View) {k j : Kind} (st : Status) (h : j ≠ k) :
    (v.set k st).status j = v.status j := Function.update_of_ne h ..

/-! ## Steps of a side -/

variable {contents} {sys}

/-- Frames of different kinds do not disturb each other. -/
theorem handled_frames {ks : List Kind} (hks : ks.Nodup) {p : RsyncProtocol φ}
    (h : ∀ k ∈ ks, future p k = none ∨ future p k = some none) :
    Calm (handle sys loads) p (ks.map fun k => frame (contents k) k) ∧
      ∀ k, future (handled (handle sys loads) p (ks.map fun k => frame (contents k) k)) k =
        if k ∈ ks then (future p k).map fun _ => some (contents k).value else future p k := by
  induction ks generalizing p with
  | nil => exact ⟨trivial, fun k => by rw [if_neg List.not_mem_nil]; rfl⟩
  | cons k ks ih =>
    obtain ⟨hk, hnodup⟩ := List.nodup_cons.mp hks
    have hframe : handle sys loads p (frame (contents k) k) =
        (setFuture p ((future p k).map fun _ => some (contents k).value) k, none) := by
      rw [handle_frame, settle_content _ (h k List.mem_cons_self)]
    have hother : ∀ j, j ≠ k → future (setFuture p
        ((future p k).map fun _ => some (contents k).value) k) j = future p j :=
      fun j hj => future_setFuture_ne _ _ hj
    obtain ⟨hcalm, hfut⟩ := ih hnodup
      (p := setFuture p ((future p k).map fun _ => some (contents k).value) k) (fun j hj => by
        rw [hother j fun he => hk (he ▸ hj)]
        exact h j (List.mem_cons_of_mem _ hj))
    constructor
    · rw [List.map_cons, Calm, hframe]
      exact ⟨rfl, hcalm⟩
    · intro j
      rw [List.map_cons, handled, hframe, hfut j]
      by_cases hj : j = k
      · rw [hj, if_neg hk, if_pos List.mem_cons_self, future_setFuture]
      · rw [hother j hj]
        simp only [List.mem_cons, hj, false_or]

theorem shows_landed {s t : Side φ} {k : Kind} {st : Status} (h : Shows contents s k st)
    (hst : st = .idle ∨ st = .waiting) (hcalled : t.called = s.called)
    (hreturned : t.returned = s.returned)
    (hfut : future t.rx.st k = (future s.rx.st k).map fun _ => some (contents k).value) :
    Shows contents t k st.landed := by
  rcases hst with hst | hst
  · rw [hst] at h ⊢
    obtain ⟨h1, h2, h3⟩ := h
    refine ⟨hcalled ▸ h1, ?_, hreturned ▸ h3⟩
    rw [hfut, h2]
    rfl
  · rw [hst] at h ⊢
    obtain ⟨h1, h2, h3⟩ := h
    refine ⟨hcalled ▸ h1, ?_, hreturned ▸ h3⟩
    rw [hfut, h2]
    rfl

theorem shows_congr {s t : Side φ} {k : Kind} {st : Status} (h : Shows contents s k st)
    (hcalled : t.called k = s.called k) (hreturned : t.returned k = s.returned k)
    (hfut : future t.rx.st k = future s.rx.st k) : Shows contents t k st := by
  cases st <;> (unfold Shows at h ⊢; rw [hcalled, hreturned, hfut]; exact h)

theorem early_future {s : Side φ} {v : View} (hr : Rep contents s v) (hf : v.Fresh) {k : Kind}
    (hk : k ∈ v.inbox) : future s.rx.st k = none ∨ future s.rx.st k = some none := by
  have hshows := hr.shows k
  rcases hf.early k hk with hst | hst
  · rw [hst] at hshows
    exact .inl hshows.2.1
  · rw [hst] at hshows
    exact .inr hshows.2.1

/-- **An arrival** handles the frames that it completes. -/
theorem arrive_rep {s t : Side φ} {v : View} {n : Nat} (h : s.arrive sys loads n = some t)
    (hr : Rep contents s v) (hf : v.Fresh) :
    ∃ ks rest, v.inbox = ks ++ rest ∧
      decoder.items (s.rx.buf ++ s.coming.take n) = ks.map (fun k => frame (contents k) k) ∧
      Rep contents t (v.land ks rest) := by
  unfold Side.arrive at h
  split at h
  · rw [← Option.some.inj h]
    obtain ⟨tail, hd, hm⟩ := items_decodes decoder_never (s.rx.buf ++ s.coming.take n)
    have hsplit : s.rx.buf ++ s.coming.take n ++ s.coming.drop n = s.rx.buf ++ s.coming := by
      rw [List.append_assoc, List.take_append_drop]
    obtain ⟨cs, hcs, hrest⟩ := (hd.append (s.coming.drop n)).extends (hsplit ▸ hr.inbox)
      decoder.look_nil
    obtain ⟨ks, rest, hbox, hks, hcs'⟩ := List.map_eq_append_iff.mp hcs
    have hnodup : (ks ++ rest).Nodup := hbox ▸ hf.nodup
    have hmem : ∀ k ∈ ks, k ∈ v.inbox := fun k hk => hbox ▸ List.mem_append_left _ hk
    have hks' := (List.nodup_append.mp hnodup).1
    obtain ⟨hcalm, hfut⟩ : Calm (handle sys loads) s.rx.st (ks.map fun k => frame (contents k) k) ∧
        _ := handled_frames hks' fun k hk => early_future hr hf (hmem k hk)
    rw [← hks] at hd
    have hdata := onData_calm hd hm hcalm
    refine ⟨ks, rest, hbox, hks.symm, ?_, ?_, ?_⟩
    · simp only [hdata]
      exact hm
    · simp only [hdata]
      rw [← hcs'] at hrest
      exact hrest
    · intro k
      by_cases hk : k ∈ ks
      · rw [View.land_mem _ _ hk]
        refine shows_landed (hr.shows k) (hf.early k (hmem k hk)) rfl rfl ?_
        simp only [hdata]
        rw [hfut, if_pos hk]
      · rw [View.land_notMem _ _ hk]
        refine shows_congr (hr.shows k) rfl rfl ?_
        simp only [hdata]
        rw [hfut, if_neg hk]
  · cases h

/-- A step of the coroutine changes what it has of one frame. -/
theorem rep_set {s t : Side φ} {v : View} {k : Kind} {st : Status} (hr : Rep contents s v)
    (hbuf : t.rx.buf = s.rx.buf) (hcoming : t.coming = s.coming) (hk : Shows contents t k st)
    (hother : ∀ j, j ≠ k → t.called j = s.called j ∧ t.returned j = s.returned j ∧
      future t.rx.st j = future s.rx.st j) : Rep contents t (v.set k st) := by
  refine ⟨hbuf ▸ hr.more, ?_, fun j => ?_⟩
  · rw [hbuf, hcoming]
    exact hr.inbox
  · by_cases hj : j = k
    · rw [hj, View.set_self]
      exact hk
    · obtain ⟨h1, h2, h3⟩ := hother j hj
      rw [View.set_ne _ _ hj]
      exact shows_congr (hr.shows j) h1 h2 h3

theorem call_rep {s t : Side φ} {v : View} {k : Kind} (h : s.call k = some t)
    (hr : Rep contents s v) : v.status k = .idle ∧ Rep contents t (v.set k .waiting) := by
  unfold Side.call at h
  split at h
  · cases h
  · rename_i hcalled
    rw [← Option.some.inj h]
    have hshows := hr.shows k
    have hidle : v.status k = .idle := by
      cases hst : v.status k with
      | idle => rfl
      | _ =>
        rw [hst] at hshows
        exact absurd hshows.1 hcalled
    rw [hidle] at hshows
    refine ⟨hidle, rep_set hr rfl rfl ⟨Function.update_self .., ?_, hshows.2.2⟩ fun j hj => ?_⟩
    · exact future_setFuture _ _ _
    · exact ⟨Function.update_of_ne hj .., rfl, future_setFuture_ne _ _ hj⟩

theorem resume_rep {s t : Side φ} {v : View} {k : Kind} (h : s.resume k = some t)
    (hr : Rep contents s v) : v.status k = .ready ∧ Rep contents t (v.set k .got) := by
  unfold Side.resume at h
  split at h
  · rename_i x hx
    rw [← Option.some.inj h]
    have hshows := hr.shows k
    have hready : v.status k = .ready := by
      cases hst : v.status k with
      | ready => rfl
      | _ =>
        rw [hst] at hshows
        rw [hshows.2.1] at hx
        cases hx
    rw [hready] at hshows
    obtain ⟨hcalled, hfuture, -⟩ := hshows
    rw [hfuture] at hx
    cases hx
    refine ⟨hready, rep_set hr rfl rfl ⟨hcalled, ?_, Function.update_self ..⟩ fun j hj => ?_⟩
    · exact future_setFuture _ _ _
    · exact ⟨rfl, Function.update_of_ne hj .., future_setFuture_ne _ _ hj⟩
  · cases h

theorem receive_rep {s : Side φ} {v : View} (k : Kind) (hr : Rep contents s v) :
    Rep contents (s.receive (contents k) k) ⟨v.status, v.inbox ++ [k]⟩ := by
  refine ⟨hr.more, ?_, hr.shows⟩
  have hlast : decoder.Decodes ([] ++ wire (contents k) k) [frame (contents k) k] [] := by
    have hlook := wire_look (contents k) k []
    rw [List.append_nil] at hlook
    exact .cons hlook (.nil [])
  rw [List.map_append, Side.receive, ← List.append_assoc]
  exact (hr.inbox.append _).trans hlast

/-- A value that is ready can be taken. -/
theorem resume_ready {s : Side φ} {v : View} {k : Kind} (hr : Rep contents s v)
    (h : v.status k = .ready) : ∃ t, s.resume k = some t := by
  have hshows := hr.shows k
  rw [h] at hshows
  unfold Side.resume
  rw [hshows.2.1]
  exact ⟨_, rfl⟩

/-- When all has arrived, all was handled. -/
theorem inbox_nil {s : Side φ} {v : View} (hr : Rep contents s v) (h : s.coming = []) :
    v.inbox = [] := by
  have hd := hr.inbox
  rw [h, List.append_nil] at hd
  exact List.map_eq_nil_iff.mp (hd.of_more hr.more).1

theorem View.Fresh.set {v : View} (hf : v.Fresh) {k : Kind} {st : Status}
    (h : k ∈ v.inbox → st = .idle ∨ st = .waiting) : (v.set k st).Fresh := by
  refine ⟨hf.nodup, fun j hj => ?_⟩
  by_cases hjk : j = k
  · rw [hjk, View.set_self]
    exact h (hjk ▸ hj)
  · rw [View.set_ne _ _ hjk]
    exact hf.early j hj

theorem View.Fresh.land {v : View} (hf : v.Fresh) {ks rest : List Kind}
    (h : v.inbox = ks ++ rest) : (v.land ks rest).Fresh := by
  have hnodup := List.nodup_append.mp (h ▸ hf.nodup)
  refine ⟨hnodup.2.1, fun j hj => ?_⟩
  have hnot : j ∉ ks := fun hm => hnodup.2.2 j hm j hj rfl
  rw [View.land_notMem _ _ hnot]
  exact hf.early j (h ▸ List.mem_append_right _ hj)

theorem call_coming {s t : Side φ} {k : Kind} (h : s.call k = some t) : t.coming = s.coming := by
  unfold Side.call at h
  split at h
  · cases h
  · rw [← Option.some.inj h]

theorem resume_coming {s t : Side φ} {k : Kind} (h : s.resume k = some t) :
    t.coming = s.coming := by
  unfold Side.resume at h
  split at h
  · rw [← Option.some.inj h]
  · cases h

theorem arrive_coming {s t : Side φ} {n : Nat} (h : s.arrive sys loads n = some t) :
    t.coming.length < s.coming.length := by
  unfold Side.arrive at h
  split at h
  · rename_i hn
    rw [← Option.some.inj h, List.length_drop]
    omega
  · cases h

/-- The same view, written differently. -/
theorem Rep.view {s : Side φ} {v w : View} (hr : Rep contents s v)
    (hmanifest : v.status .manifest = w.status .manifest)
    (hrequest : v.status .request = w.status .request) (hinbox : v.inbox = w.inbox) :
    Rep contents s w := by
  refine ⟨hr.more, hinbox ▸ hr.inbox, fun k => ?_⟩
  cases k with
  | manifest => exact hmanifest ▸ hr.shows .manifest
  | request => exact hrequest ▸ hr.shows .request

/-- A call that was not made can be made. -/
theorem call_idle {s : Side φ} {v : View} {k : Kind}
    (hr : Rep contents s v) (h : v.status k = .idle) : ∃ t, s.call k = some t := by
  have hshows := hr.shows k
  rw [h] at hshows
  unfold Side.call
  rw [hshows.1]
  exact ⟨_, rfl⟩

variable (sys) in
/-- While a frame is on its way, bytes can arrive. -/
theorem arrive_inbox {s : Side φ} {v : View}
    (hr : Rep contents s v) (h : v.inbox ≠ []) : ∃ t, s.arrive sys loads 1 = some t := by
  have hpos : 0 < s.coming.length := by
    refine List.length_pos_iff.mpr fun hcoming => h ?_
    exact inbox_nil hr hcoming
  unfold Side.arrive
  rw [if_pos ⟨Nat.one_pos, hpos⟩]
  exact ⟨_, rfl⟩

theorem arrive_nil {s : Side φ} (h : s.coming = []) (n : Nat) : s.arrive sys loads n = none := by
  unfold Side.arrive
  rw [h, List.length_nil]
  exact if_neg (by omega)

/-! ## Calls and frames in any order -/

inductive SideLbl
  | call (k : Kind)
  | resume (k : Kind)
  | arrive (n : Nat)

variable (loads) (sys) in
def sideStep (s : Side φ) : SideLbl → Option (Side φ)
  | .call k => s.call k
  | .resume k => s.resume k
  | .arrive n => s.arrive sys loads n

variable (sys) (contents)

def Kind.other : Kind → Kind
  | .manifest => .request
  | .request => .manifest

/-- The two frames of a peer, `first` before the other one. -/
def stream (first : Kind) : Bytes :=
  wire (contents first) first ++ wire (contents first.other) first.other

def side (fs : φ) (first : Kind) : LTS (Side φ) SideLbl :=
  .ofStep (· = Side.new fs (stream contents first)) (sideStep sys loads)

/-- **The call was made in time**, if the step completes its frame. -/
def InTime (k : Kind) (s : Side φ) : SideLbl → Prop
  | .arrive n => frame (contents k) k ∈ decoder.items (s.rx.buf ++ s.coming.take n) →
      s.called k = true
  | _ => True

variable {contents} {sys}

theorem inTime_arrive {s : Side φ} {n : Nat} {ks : List Kind}
    (h : decoder.items (s.rx.buf ++ s.coming.take n) = ks.map fun k => frame (contents k) k)
    (k : Kind) : InTime contents k s (.arrive n) ↔ (k ∈ ks → s.called k = true) := by
  have hmem : frame (contents k) k ∈ ks.map (fun k => frame (contents k) k) ↔ k ∈ ks := by
    constructor
    · intro hm
      obtain ⟨j, hj, hjk⟩ := List.mem_map.mp hm
      exact frame_inj hjk ▸ hj
    · exact List.mem_map_of_mem
  rw [InTime, h, hmem]

/-- The frame is not lost. -/
def View.Alive (v : View) (k : Kind) : Prop :=
  k ∈ v.inbox ∨ v.status k = .ready ∨ v.status k = .got

theorem alive_set {v : View} {k j : Kind} {st : Status}
    (h : v.status k = .ready ∨ v.status k = .got ↔ st = .ready ∨ st = .got) :
    (v.set k st).Alive j ↔ v.Alive j := by
  unfold View.Alive
  by_cases hj : j = k
  · rw [hj, View.set_self, ← h]
    rfl
  · rw [View.set_ne _ _ hj]
    rfl

/-- A frame that arrives is lost when its call was not made. -/
theorem alive_land {s : Side φ} {v : View} (hr : Rep contents s v) (hf : v.Fresh)
    {ks rest : List Kind} (hbox : v.inbox = ks ++ rest) (k : Kind) :
    (v.land ks rest).Alive k ↔ v.Alive k ∧ (k ∈ ks → s.called k = true) := by
  have hnodup := List.nodup_append.mp (hbox ▸ hf.nodup)
  unfold View.Alive
  by_cases hk : k ∈ ks
  · have hnot : k ∉ rest := fun hm => hnodup.2.2 k hk k hm rfl
    have hin : k ∈ v.inbox := hbox ▸ List.mem_append_left _ hk
    have hshows := hr.shows k
    rw [View.land_mem _ _ hk]
    rcases hf.early k hin with hst | hst
    · rw [hst] at hshows
      simp [View.land, hnot, hst, Status.landed, hk, hshows.1]
    · rw [hst] at hshows
      simp [hst, Status.landed, hin, hshows.1]
  · have hiff : k ∈ v.inbox ↔ k ∈ rest := by
      rw [hbox, List.mem_append]
      exact ⟨fun h => h.resolve_left hk, .inr⟩
    rw [View.land_notMem _ _ hk, hiff]
    exact (and_iff_left fun h => absurd h hk).symm

/-- **A step of a side**, in the view. -/
theorem side_step {s t : Side φ} {v : View} {l : SideLbl} (h : sideStep sys loads s l = some t)
    (hr : Rep contents s v) (hf : v.Fresh) (k : Kind) :
    ∃ v', Rep contents t v' ∧ v'.Fresh ∧ (v'.Alive k ↔ v.Alive k ∧ InTime contents k s l) := by
  cases l with
  | call j =>
    obtain ⟨hidle, hrep⟩ := call_rep h hr
    refine ⟨_, hrep, hf.set fun _ => .inr rfl, ?_⟩
    rw [alive_set (by simp [hidle])]
    exact (and_iff_left trivial).symm
  | resume j =>
    obtain ⟨hready, hrep⟩ := resume_rep h hr
    have hnot : j ∉ v.inbox := by
      intro hm
      rcases hf.early j hm with hst | hst
      · rw [hready] at hst
        cases hst
      · rw [hready] at hst
        cases hst
    refine ⟨_, hrep, hf.set fun hm => absurd hm hnot, ?_⟩
    rw [alive_set (by simp [hready])]
    exact (and_iff_left trivial).symm
  | arrive n =>
    obtain ⟨ks, rest, hbox, hitems, hrep⟩ := arrive_rep h hr hf
    refine ⟨_, hrep, hf.land hbox, ?_⟩
    rw [alive_land hr hf hbox, inTime_arrive hitems]

/-- What a run of a side loses of a frame. -/
theorem side_run {fs : φ} {first : Kind} {s t : Side φ} {ls : List SideLbl}
    (hrun : (side sys contents fs first).Run s ls t) {v : View} (hr : Rep contents s v)
    (hf : v.Fresh) (k : Kind) :
    ∃ v', Rep contents t v' ∧ (v'.Alive k ↔ v.Alive k ∧
      ((side sys contents fs first).restrict (InTime contents k)).Run s ls t) := by
  have hstep : ∀ s l t v, Rep contents s v ∧ v.Fresh → sideStep sys loads s l = some t →
      ∃ v', (Rep contents t v' ∧ v'.Fresh) ∧
        (v'.Alive k ↔ v.Alive k ∧ InTime contents k s l) := by
    intro s l t v hv h
    obtain ⟨v', hr', hf', ha⟩ := side_step h hv.1 hv.2 k
    exact ⟨v', ⟨hr', hf'⟩, ha⟩
  obtain ⟨v', hv', ha⟩ := LTS.Run.view_iff hstep hrun ⟨hr, hf⟩
  exact ⟨v', hv'.1, ha⟩

/-- A side to which two frames are on their way. -/
def arriving (first : Kind) : View := ⟨fun _ => .idle, [first, first.other]⟩

theorem rep_new (fs : φ) (first : Kind) :
    Rep contents (Side.new fs (stream contents first)) (arriving first) := by
  refine ⟨decoder.look_nil, ?_, fun k => ?_⟩
  · have hlook := wire_look (contents first.other) first.other []
    rw [List.append_nil] at hlook
    exact .cons (wire_look _ _ _) (.cons hlook (.nil []))
  · cases k <;> exact ⟨rfl, rfl, rfl⟩

theorem fresh_arriving (first : Kind) : (arriving first).Fresh :=
  ⟨by cases first <;> decide, fun _ _ => .inl rfl⟩

theorem alive_arriving (first k : Kind) : (arriving first).Alive k :=
  .inl (by cases first <;> cases k <;> decide)

/-- At the end a call has returned its value, or its frame is lost. -/
theorem returned_alive {s : Side φ} {v : View} (hr : Rep contents s v) (hcoming : s.coming = [])
    {k : Kind} (hrest : s.resume k = none) (hcalled : s.called k = true) :
    s.returned k = some (contents k).value ↔ v.Alive k := by
  have hbox := inbox_nil hr hcoming
  have hshows := hr.shows k
  unfold View.Alive
  rw [hbox]
  cases hst : v.status k with
  | idle =>
    rw [hst] at hshows
    rw [hshows.1] at hcalled
    cases hcalled
  | waiting =>
    rw [hst] at hshows
    simp [hshows.2.2]
  | ready =>
    obtain ⟨t, ht⟩ := resume_ready hr hst
    rw [hrest] at ht
    cases ht
  | got =>
    rw [hst] at hshows
    simp [hshows.2.2]

/-- **When a call returns.** All has arrived and every value was taken: a call that was made
has returned the value of its frame if and only if no arrival completed the frame before the
call. -/
theorem returned_iff {fs : φ} {first : Kind} {s : Side φ} {ls : List SideLbl}
    (hrun : (side sys contents fs first).Run (Side.new fs (stream contents first)) ls s)
    (hcoming : s.coming = []) {k : Kind} (hrest : s.resume k = none)
    (hcalled : s.called k = true) :
    s.returned k = some (contents k).value ↔
      ((side sys contents fs first).restrict (InTime contents k)).Run
        (Side.new fs (stream contents first)) ls s := by
  obtain ⟨v, hr, ha⟩ := side_run hrun (rep_new fs first) (fresh_arriving first) k
  rw [returned_alive hr hcoming hrest hcalled, ha]
  exact and_iff_right (alive_arriving first k)

/-! ## One frame at a time -/

/-- Where one frame is on its way, an arrival completes it or nothing. -/
theorem arrive_short {s t : Side φ} {v : View} {n : Nat}
    (h : s.arrive sys loads n = some t) (hr : Rep contents s v) (hf : v.Fresh)
    (hlen : v.inbox.length ≤ 1) :
    (Rep contents t v ∧ ∀ k, InTime contents k s (.arrive n)) ∨
      ∃ j, v.inbox = [j] ∧ Rep contents t (v.land [j] []) ∧
        ∀ k, InTime contents k s (.arrive n) ↔ (k = j → s.called k = true) := by
  obtain ⟨ks, rest, hbox, hitems, hrep⟩ := arrive_rep h hr hf
  cases ks with
  | nil =>
    refine .inl ⟨hrep.view ?_ ?_ hbox.symm, fun k => (inTime_arrive hitems k).mpr fun hk => ?_⟩
    · exact View.land_notMem _ _ List.not_mem_nil
    · exact View.land_notMem _ _ List.not_mem_nil
    · cases hk
  | cons j ks =>
    rw [hbox] at hlen
    simp only [List.cons_append, List.length_cons, List.length_append] at hlen
    have hks : ks = [] := List.eq_nil_of_length_eq_zero (by omega)
    have hrest : rest = [] := List.eq_nil_of_length_eq_zero (by omega)
    rw [hks] at hbox hitems hrep
    rw [hrest] at hbox hrep
    refine .inr ⟨j, hbox, hrep, fun k => ?_⟩
    rw [inTime_arrive hitems, List.mem_singleton]

end Wormhole.L4.RsyncCalls
