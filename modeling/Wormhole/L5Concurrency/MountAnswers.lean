import Wormhole.L4App.MountServer

/-!
# A running mount server

`run_server` of `src/wh/cli/mount.py` and the connections that its
`StreamingProtocolFactory` builds (`src/wh/core/protocol.py`). All of them hand
their data to one `MountProtocol`, and each request is handled in a task of its
own. `run_client` assigns `_protocol`, `run_server` does not.

* `requests_eq`: however a stream of requests is cut into chunks, its requests
  are handled, each once and in order.
* `mount_answered_iff`: none of them is answered.
-/
namespace Wormhole.L5.MountAnswers
open Wormhole.L1 Wormhole.L4.Mount Wormhole.Decoder

variable {φ : Type}

/-! ## The factory's connections -/

/-- mirrors src/wh/core/protocol.py:93-101 -/
def buildProtocol : StreamingProtocol := ⟨false, []⟩

/-- mirrors src/wh/core/protocol.py:44-48 -/
def connectionMade (c : StreamingProtocol) : StreamingProtocol := { c with connected := true }

/-- mirrors src/wh/core/protocol.py:55-60 -/
def connectionLost (c : StreamingProtocol) : StreamingProtocol := { c with connected := false }

/-! ## Steps -/

/-- A frame that the loop of `_process_buffer` has taken off the buffer.
mirrors src/wh/cli/mount.py:105-108 -/
def dispatch (s : Server φ) (f : Frame) : Server φ × Option Empty :=
  (if f.isRequest then { s with tasks := s.tasks ++ [f], requests := s.requests ++ [f] } else s, none)

/-- mirrors src/wh/cli/mount.py:60-74,398-410 -/
def init (root : L4.ServedPaths.Root) (files : φ) : Rx (Server φ) UInt8 where
  st :=
    { root := root
      protocol := none
      files := files
      conns := []
      tasks := []
      connected := false
      done := false
      received := []
      requests := [] }
  buf := []

inductive Lbl
  | connect
  | data (i : Nat) (chunk : Bytes)
  | run
  | lost (i : Nat)
  deriving DecidableEq, Repr

def step (os : Os φ) (r : Rx (Server φ) UInt8) : Lbl → Option (Rx (Server φ) UInt8)
  | .connect => some ⟨{ r.st with
      conns := r.st.conns ++ [connectionMade buildProtocol]
      connected := true }, r.buf⟩
  | .data i chunk =>
    match r.st.conns[i]? with
    | some ⟨true, _⟩ =>
      some (onData decoder dispatch ⟨{ r.st with received := r.st.received ++ chunk }, r.buf⟩ chunk).1
    | _ => none
  | .run =>
    match r.st.tasks with
    | [] => none
    -- what a task raises stays in the task
    | f :: tasks => some ⟨(handleRequest os { r.st with tasks := tasks } f).1, r.buf⟩
  | .lost i =>
    match r.st.conns[i]? with
    | some ⟨true, _⟩ => some ⟨{ r.st with
        conns := r.st.conns.modify i connectionLost
        done := true }, r.buf⟩
    | _ => none

def lts (os : Os φ) (root : L4.ServedPaths.Root) (files : φ) : LTS (Rx (Server φ) UInt8) Lbl :=
  .ofStep (· = init root files) (step os)

variable {os : Os φ} {root : L4.ServedPaths.Root} {files : φ}

/-! ## What the loop does -/

/-- The frames of a chunk change the two lists of requests, and nothing else. -/
theorem handled_dispatch (s : Server φ) (fs : List Frame) :
    handled dispatch s fs = { s with
      tasks := s.tasks ++ fs.filter Frame.isRequest
      requests := s.requests ++ fs.filter Frame.isRequest } := by
  induction fs generalizing s with
  | nil => simp [handled]
  | cons f fs ih =>
    rw [handled, ih]
    by_cases hf : f.isRequest = true
    · simp [dispatch, hf]
    · simp [dispatch, hf]

/-! ## The invariant -/

/-- `_protocol` is not set and nothing has been written; the requests are those
of what has been received. -/
structure Inv (r : Rx (Server φ) UInt8) : Prop where
  protocol : r.st.protocol = none
  written : ∀ c ∈ r.st.conns, c.written = []
  decoded : ∃ fs, decoder.Decodes r.st.received fs r.buf ∧ decoder.look r.buf = .more ∧
    r.st.requests = fs.filter Frame.isRequest

theorem handleRequest_silent (os : Os φ) {s : Server φ} (h : s.protocol = none) (f : Frame) :
    ∃ files', (handleRequest os s f).1 = { s with files := files' } := by
  obtain ⟨files', ⟨_, g, _, hg⟩ | ⟨e, he⟩⟩ := handleRequest_one os s f
  · refine ⟨files', ?_⟩
    rw [hg, sendMessage]
    simp only [h]
  · exact ⟨files', by rw [he]⟩

theorem inv_init (root : L4.ServedPaths.Root) (files : φ) : Inv (init root files) where
  protocol := rfl
  written := by
    intro c hc
    cases hc
  decoded := ⟨[], .nil [], decoder.look_nil, rfl⟩

theorem inv_data {r : Rx (Server φ) UInt8} (hi : Inv r) (chunk : Bytes) :
    Inv (onData decoder dispatch ⟨{ r.st with received := r.st.received ++ chunk }, r.buf⟩ chunk).1 := by
  obtain ⟨fs, hdec, hmore, hreqs⟩ := hi.decoded
  have hstop := onData_more (fun _ _ => rfl) (fun _ e => e.elim)
    ⟨{ r.st with received := r.st.received ++ chunk }, r.buf⟩ chunk (D := decoder) (H := dispatch)
  obtain ⟨htaken, hst⟩ := onData_taken (D := decoder) (H := dispatch)
    ⟨{ r.st with received := r.st.received ++ chunk }, r.buf⟩ chunk
  generalize taken decoder dispatch _ chunk = gs at htaken hst
  rw [handled_dispatch] at hst
  refine ⟨by rw [hst]; exact hi.protocol, by rw [hst]; exact hi.written, fs ++ gs, ?_, hstop, ?_⟩
  · rw [hst]
    exact (hdec.append chunk).trans htaken
  · rw [hst, List.filter_append, ← hreqs]

theorem inv_step {r t : Rx (Server φ) UInt8} {l : Lbl} (hi : Inv r) (h : step os r l = some t) :
    Inv t := by
  cases l with
  | connect =>
    cases h
    refine ⟨hi.protocol, ?_, hi.decoded⟩
    intro c hc
    rcases List.mem_append.mp hc with hold | hnew
    · exact hi.written c hold
    · rw [List.mem_singleton.mp hnew]
      rfl
  | data i chunk =>
    simp only [step] at h
    split at h
    · cases h
      exact inv_data hi chunk
    · cases h
  | run =>
    simp only [step] at h
    split at h
    · cases h
    · rename_i f tasks _
      cases h
      obtain ⟨files', hf⟩ := handleRequest_silent os
        (s := { r.st with tasks := tasks }) hi.protocol f
      rw [hf]
      exact ⟨hi.protocol, hi.written, hi.decoded⟩
  | lost i =>
    simp only [step] at h
    split at h
    · cases h
      refine ⟨hi.protocol, ?_, hi.decoded⟩
      intro c hc
      obtain ⟨j, hj⟩ := List.mem_iff_getElem?.mp hc
      rw [List.getElem?_modify] at hj
      obtain ⟨c', hc', rfl⟩ := Option.map_eq_some_iff.mp hj
      have hold := hi.written c' (List.mem_of_getElem? hc')
      split
      · exact hold
      · exact hold
    · cases h

theorem inv (os : Os φ) (root : L4.ServedPaths.Root) (files : φ) :
    (lts os root files).Inductive Inv where
  init := by
    intro r hr
    rw [hr]
    exact inv_init root files
  step := by
    intro r l t hi h
    exact inv_step hi h

/-! ## Results -/

theorem pack_ne_nil (f : Frame) : f.pack ≠ [] := by
  simp [Frame.pack]

/-- **The requests are all handled.** Once a stream of requests has arrived, in
whatever chunks, these have been handed to the handlers, each once, in order. -/
theorem requests_eq {r : Rx (Server φ) UInt8} (h : (lts os root files).Reachable r)
    {rs : List Frame} (hr : r.st.received = rs.flatMap Frame.pack)
    (hfit : ∀ f ∈ rs, f.fits = true) (hreq : ∀ f ∈ rs, f.isRequest = true) :
    r.st.requests = rs := by
  obtain ⟨fs, hdec, hmore, heq⟩ := ((inv os root files).reachable r h).decoded
  have hall : decoder.Decodes (rs.flatMap Frame.pack) rs [] := by
    simpa using Decodes.of_encoded (fun f hf tl => pack_look (hfit f hf) tl) []
  rw [hr] at hdec
  obtain ⟨cs, rfl, hrest⟩ := hdec.extends hall decoder.look_nil
  obtain ⟨rfl, -⟩ := hrest.of_more hmore
  rw [heq, List.append_nil, List.filter_eq_self]
  simpa using hreq

/-- The frames answer the requests: one response or error for each, under its
id, and no others. -/
def AnswersAll (rs gs : List Frame) : Prop :=
  (∀ g ∈ gs, g.msgType = MSG_RESPONSE ∨ g.msgType = MSG_ERROR) ∧
    (gs.map Frame.requestId).Perm (rs.map Frame.requestId)

/-- What the connection was sent is such frames. -/
def Answered (c : StreamingProtocol) (rs : List Frame) : Prop :=
  ∃ gs, c.written = gs.flatMap Frame.pack ∧ AnswersAll rs gs

theorem answered_of_silent {c : StreamingProtocol} (h : c.written = []) (rs : List Frame) :
    Answered c rs ↔ rs = [] := by
  constructor
  · rintro ⟨gs, hw, -, hperm⟩
    have hgs : gs = [] := by
      cases gs with
      | nil => rfl
      | cons g gs =>
        rw [h, List.flatMap_cons] at hw
        exact absurd (List.append_eq_nil_iff.mp hw.symm).1 (pack_ne_nil g)
    subst hgs
    have hlen := hperm.length_eq
    simp only [List.map_nil, List.length_nil, List.length_map] at hlen
    exact List.length_eq_zero_iff.mp hlen.symm
  · rintro rfl
    refine ⟨[], h, ?_, .refl _⟩
    intro g hg
    cases hg

/-- **Headline.** Once the requests of its connection have arrived, in whatever
chunks, a server that `run_server` has started has taken them all, and at no
later time are they answered, unless there were none. -/
theorem mount_answered_iff {r : Rx (Server φ) UInt8} (h : (lts os root files).Reachable r)
    {c : StreamingProtocol} (hc : r.st.conns = [c]) {rs : List Frame}
    (hr : r.st.received = rs.flatMap Frame.pack) (hfit : ∀ f ∈ rs, f.fits = true)
    (hreq : ∀ f ∈ rs, f.isRequest = true) :
    r.st.requests = rs ∧ (Answered c rs ↔ rs = []) := by
  have hi := (inv os root files).reachable r h
  have hw : c.written = [] := hi.written c (by rw [hc]; exact List.mem_singleton_self c)
  exact ⟨requests_eq h hr hfit hreq, answered_of_silent hw rs⟩

/-! ## A `readdir` that is not answered -/

/-- An empty directory. -/
def emptyDir : Os Unit where
  loads _ := .error ⟨.other, "Expecting value: line 1 column 1 (char 0)"⟩
  dumps _ := encode "\x7b\"entries\": [\".\", \"..\"]\x7d"
  b64encode _ := ""
  b64decode _ := .ok []
  stat _ _ := .error ⟨.fileNotFoundError, "[Errno 2] No such file or directory"⟩
  listdir _ _ := .ok []
  readAt _ _ _ _ := .error ⟨.other, "[Errno 21] Is a directory"⟩
  writeAt _ _ _ _ := ((), .error ⟨.other, "[Errno 21] Is a directory"⟩)
  create _ _ _ := ((), .error ⟨.other, "[Errno 21] Is a directory"⟩)
  mkdir _ _ _ := ((), .error ⟨.other, "[Errno 17] File exists"⟩)
  unlink _ _ := ((), .error ⟨.other, "[Errno 21] Is a directory"⟩)
  rmdir _ _ := ((), .error ⟨.other, "[Errno 16] Device or resource busy"⟩)
  rename _ _ _ := ((), .error ⟨.other, "[Errno 16] Device or resource busy"⟩)
  truncate _ _ _ := ((), .error ⟨.other, "[Errno 21] Is a directory"⟩)
  chmod _ _ _ := ((), .ok ())

def srv : L4.ServedPaths.Root := ⟨['/', 's', 'r', 'v'], by decide, by decide⟩

/-- The root's entries, without a payload. -/
def readdir : Frame := ⟨MSG_READDIR, 1, []⟩

def readdirRun : List Lbl :=
  [.connect, .data 0 (readdir.pack.take 4), .data 0 (readdir.pack.drop 4), .run]

theorem exec_readdirRun :
    (LTS.exec (step emptyDir) (init srv ()) readdirRun).isSome ∧
      let r := LTS.after (step emptyDir) (init srv ()) readdirRun
      r.st.conns = [⟨true, []⟩] ∧ r.st.received = readdir.pack ∧ r.st.requests = [readdir] ∧
        r.st.tasks = [] := by
  decide +kernel

theorem answered_readdir :
    ∃ r, (lts emptyDir srv ()).Reachable r ∧ r.st.conns = [⟨true, []⟩] ∧
      r.st.requests = [readdir] ∧ (Answered ⟨true, []⟩ [readdir] ↔ [readdir] = []) := by
  obtain ⟨h, hc, hr, -, -⟩ := exec_readdirRun
  have hreach : (lts emptyDir srv ()).Reachable _ :=
    LTS.reachable_of_exec rfl (LTS.exec_after h)
  have hpack : (LTS.after (step emptyDir) (init srv ()) readdirRun).st.received =
      [readdir].flatMap Frame.pack := by
    rw [hr]
    rfl
  exact ⟨_, hreach, hc, mount_answered_iff hreach hc hpack
    (by simp; decide) (by simp; decide)⟩

/-- The request has been handled and the connection is up, but nothing has been
written to it. -/
theorem unanswered_readdir :
    ∃ r, (lts emptyDir srv ()).Reachable r ∧ r.st.conns = [⟨true, []⟩] ∧
      r.st.received = [readdir].flatMap Frame.pack ∧ r.st.requests = [readdir] ∧
      r.st.tasks = [] ∧ ¬ Answered ⟨true, []⟩ [readdir] := by
  obtain ⟨h, hc, hr, hq, ht⟩ := exec_readdirRun
  refine ⟨_, LTS.reachable_of_exec rfl (LTS.exec_after h), hc, by rw [hr]; rfl, hq, ht, ?_⟩
  rw [answered_of_silent rfl]
  exact List.cons_ne_nil _ _

end Wormhole.L5.MountAnswers
