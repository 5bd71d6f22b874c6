import Wormhole.L5Concurrency.MountCalls

/-!
# What a mount client writes

The calls of a client (`Wormhole.L5.MountCalls`) and its answers to the peer's requests share one
connection: `is_server` is not looked at, so the side that mounts serves files as well.

* `stream_wellFormed`: what is written is whole frames: the requests of the calls, in order, and one
  answer to each request of the peer, in order.
-/
namespace Wormhole.L5.MountStream
open Wormhole.L1 Wormhole.L4.Mount Wormhole.Decoder Wormhole.L5.MountCalls

variable {φ : Type} {os : Os φ} {root : L4.ServedPaths.Root} {files : φ}

/-! ## What is written -/

/-- What the connection has been sent. -/
def written (n : Server φ) : Bytes := (n.conns.head?.map StreamingProtocol.written).getD []

/-- The frame that `_send_error` sends. -/
def errorFrame (os : Os φ) (id code : Nat) (message : String) : Frame :=
  ⟨MSG_ERROR, id, os.dumps (.obj [("error", .int code), ("message", .str message)])⟩

/-- The frames answer the requests, in the same order: one for each, but for those whose error does
not fit a frame. -/
inductive InTurn (os : Os φ) : List Frame → List Frame → Prop
  | nil : InTurn os [] []
  | answered {f g : Frame} {fs gs : List Frame} (h : g.Answers f.requestId) (ht : InTurn os fs gs) :
    InTurn os (f :: fs) (g :: gs)
  | tooLong {f : Frame} {fs gs : List Frame} (code : Nat) (message : String)
    (h : (errorFrame os f.requestId code message).fits = false) (ht : InTurn os fs gs) :
    InTurn os (f :: fs) gs

theorem InTurn.append {fs gs fs' gs' : List Frame} (h : InTurn os fs gs) (h' : InTurn os fs' gs') :
    InTurn os (fs ++ fs') (gs ++ gs') := by
  induction h with
  | nil => exact h'
  | answered ha _ ih => exact .answered ha ih
  | tooLong code message hf _ ih => exact .tooLong code message hf ih

/-- The requests of the calls so far. -/
def asked (os : Os φ) (c : Client φ) : List Frame :=
  c.calls.map fun call => call.op.frame os call.requestId

/-- From one state to another the frames `gs` were written, and the requests `hs` were handled. -/
structure Emits (os : Os φ) (r t : Rx (Client φ) UInt8) (gs hs : List Frame) : Prop where
  stream : written t.st.node = written r.st.node ++ gs.flatMap Frame.pack
  calls : ∃ new, asked os t.st = asked os r.st ++ new ∧
    gs.filter Frame.isRequest = new.filter Frame.fits
  tasks : ∃ new, t.st.node.requests = r.st.node.requests ++ new ∧
    r.st.node.tasks ++ new = hs ++ t.st.node.tasks
  answers : InTurn os hs (gs.filter fun g => !g.isRequest)

theorem Emits.trans {r s t : Rx (Client φ) UInt8} {gs hs gs' hs' : List Frame}
    (h : Emits os r s gs hs) (h' : Emits os s t gs' hs') :
    Emits os r t (gs ++ gs') (hs ++ hs') where
  stream := by rw [h'.stream, h.stream, List.flatMap_append, List.append_assoc]
  calls := by
    obtain ⟨new, hnew, hreq⟩ := h.calls
    obtain ⟨new', hnew', hreq'⟩ := h'.calls
    exact ⟨new ++ new', by rw [hnew', hnew, List.append_assoc],
      by rw [List.filter_append, List.filter_append, hreq, hreq']⟩
  tasks := by
    obtain ⟨new, hnew, htask⟩ := h.tasks
    obtain ⟨new', hnew', htask'⟩ := h'.tasks
    refine ⟨new ++ new', by rw [hnew', hnew, List.append_assoc], ?_⟩
    rw [← List.append_assoc, htask, List.append_assoc, htask', List.append_assoc]
  answers := by
    rw [List.filter_append]
    exact h.answers.append h'.answers

/-- A step that writes nothing and handles nothing. -/
theorem Emits.silent {r t : Rx (Client φ) UInt8} (hw : written t.st.node = written r.st.node)
    (hc : asked os t.st = asked os r.st)
    (ht : ∃ new, t.st.node.requests = r.st.node.requests ++ new ∧
      t.st.node.tasks = r.st.node.tasks ++ new) : Emits os r t [] [] where
  stream := by rw [hw]; simp
  calls := ⟨[], by rw [hc, List.append_nil], rfl⟩
  tasks := by
    obtain ⟨new, hnew, htask⟩ := ht
    exact ⟨new, hnew, htask.symm⟩
  answers := .nil

theorem sendMessage_written {n : Server φ} (hp : n.protocol = some 0) (hup : link n = some true)
    (f : Frame) :
    written (sendMessage n f).1 = written n ++ if f.fits then f.pack else [] := by
  unfold sendMessage
  rw [hp]
  dsimp only
  split
  · unfold link at hup
    unfold written
    cases hc : n.conns with
    | nil => rw [hc] at hup; cases hup
    | cons c cs =>
      rw [hc] at hup
      have hcon : c.connected = true := Option.some.inj hup
      simp [StreamingProtocol.send, hcon]
  · rw [List.append_nil]

theorem handleRequest_raised {n : Server φ} {f : Frame} {e : Exn}
    (h : (handleRequest os n f).2 = some e) :
    ∃ code message, (errorFrame os f.requestId code message).fits = false := by
  unfold handleRequest at h
  split at h
  · cases h
  · rename_i m e' _
    exact ⟨errorCode e'.kind, e'.text, (sendMessage_raised h).1⟩

/-- A task that is run writes its answer. -/
theorem handleRequest_answers (os : Os φ) {n : Server φ} (hp : n.protocol = some 0)
    (hup : link n = some true) (f : Frame) : ∃ gs : List Frame,
      written (handleRequest os n f).1 = written n ++ gs.flatMap Frame.pack ∧
      gs.filter Frame.isRequest = [] ∧ InTurn os [f] (gs.filter fun g => !g.isRequest) := by
  obtain ⟨files, ⟨hnone, g, hg, hsent⟩ | ⟨e, he⟩⟩ := handleRequest_one os n f
  · have hw : written (sendMessage { n with files := files } g).1 =
        written n ++ if g.fits then g.pack else [] :=
      sendMessage_written (n := { n with files := files }) hp hup g
    have hfits : g.fits = true := by
      rw [hsent, sendMessage] at hnone
      simp only [hp] at hnone
      by_contra hf
      simp [hf] at hnone
    have hreq : g.isRequest = false := by
      rcases hg.1 with h | h <;> simp [Frame.isRequest, h]
    refine ⟨[g], ?_, by simp [hreq], ?_⟩
    · rw [hsent, hw, if_pos hfits]
      simp
    · simp only [List.filter_cons, hreq, List.filter_nil, Bool.not_false, if_true]
      exact .answered hg .nil
  · obtain ⟨code, message, hf⟩ := handleRequest_raised (by rw [he])
    refine ⟨[], ?_, rfl, .tooLong code message hf .nil⟩
    rw [he, List.flatMap_nil, List.append_nil]
    rfl

theorem asked_resolved (calls : List Call) (j : Nat) (x : Except Raised Json) :
    (calls.modify j (·.resolve x)).map (fun call => call.op.frame os call.requestId) =
      calls.map fun call => call.op.frame os call.requestId := by
  refine List.ext_getElem? fun i => ?_
  rw [List.getElem?_map, List.getElem?_map, List.getElem?_modify]
  cases calls[i]? with
  | none => rfl
  | some call =>
    by_cases hj : j = i
    · simp [hj, Call.resolve]
    · simp [hj]

theorem asked_dispatch (c : Client φ) (f : Frame) : asked os (dispatch os c f).1 = asked os c := by
  unfold dispatch
  dsimp only
  split
  · rfl
  · unfold handleResponse
    split
    · rfl
    · exact asked_resolved _ _ _

theorem asked_handled (c : Client φ) (fs : List Frame) :
    asked os (handled (dispatch os) c fs) = asked os c := by
  induction fs generalizing c with
  | nil => rfl
  | cons f fs ih => rw [handled, ih, asked_dispatch]

theorem asked_set {c : Client φ} {j : Nat} {old call : Call} (h : c.calls[j]? = some old)
    (hop : call.op = old.op) (hid : call.requestId = old.requestId) :
    (c.calls.set j call).map (fun call => call.op.frame os call.requestId) =
      c.calls.map fun call => call.op.frame os call.requestId := by
  refine List.ext_getElem? fun i => ?_
  rw [List.getElem?_map, List.getElem?_map, List.getElem?_set]
  split
  · rename_i hj
    subst hj
    rw [h, if_pos (List.getElem?_eq_some_iff.mp h).1]
    simp [hop, hid]
  · rfl

/-- One step with the connection up. -/
theorem emits_step {r t : Rx (Client φ) UInt8} {l : Lbl} (hi : Inv r) (hst : step os r l = some t)
    (hp : r.st.node.protocol = some 0) (hup : link r.st.node = some true) (hl : l ≠ .lost) :
    t.st.node.protocol = some 0 ∧ link t.st.node = some true ∧ ∃ gs hs, Emits os r t gs hs := by
  cases l with
  | connect =>
    simp only [step] at hst
    split at hst
    · rename_i hc
      unfold link at hup
      rw [hc] at hup
      cases hup
    · cases hst
  | callback =>
    simp only [step, hp] at hst
    split at hst <;> simp_all
  | call op =>
    simp only [step, hp] at hst
    cases hst
    have hkept := kept_sendMessage r.st.node (op.frame os (r.st.requestId + 1))
    refine ⟨hkept.protocol.trans hp, hkept.link.trans hup,
      [op.frame os (r.st.requestId + 1)].filter Frame.fits, [], ?_, ?_, ?_, ?_⟩
    · show written (sendMessage r.st.node _).1 = _
      rw [sendMessage_written hp hup]
      by_cases hf : (op.frame os (r.st.requestId + 1)).fits = true
      · simp [hf]
      · simp [hf]
    · refine ⟨[op.frame os (r.st.requestId + 1)], ?_, ?_⟩
      · show (r.st.calls ++ [_]).map _ = _
        rw [List.map_append]
        rfl
      · rw [List.filter_filter, List.filter_congr]
        intro g hg
        rw [List.mem_singleton.mp hg, Op.frame, msgType_isRequest]
        simp
    · refine ⟨[], ?_, ?_⟩
      · rw [List.append_nil]
        exact hkept.requests
      · rw [List.append_nil]
        exact hkept.tasks.symm
    · have hnone : ([op.frame os (r.st.requestId + 1)].filter Frame.fits).filter
          (fun g => !g.isRequest) = [] := by
        rw [List.filter_filter, List.filter_eq_nil_iff]
        intro g hg
        rw [List.mem_singleton.mp hg, Op.frame, msgType_isRequest]
        simp
      rw [hnone]
      exact .nil
  | data chunk =>
    obtain ⟨-, -, gs, -, hhandled⟩ := data_step hi hst
    have hnode : t.st.node = handled MountAnswers.dispatch (heard r.st chunk).node gs := by
      rw [hhandled, handled_node]
    rw [MountAnswers.handled_dispatch] at hnode
    refine ⟨by rw [hnode]; exact hp, by rw [hnode]; exact hup, [], [], .silent ?_ ?_ ?_⟩
    · rw [hnode]
      rfl
    · rw [hhandled, asked_handled]
      rfl
    · rw [hnode]
      exact ⟨gs.filter Frame.isRequest, rfl, rfl⟩
  | run =>
    simp only [step] at hst
    split at hst
    · cases hst
    · rename_i f tasks htasks
      cases hst
      have hkept := kept_handleRequest os { r.st.node with tasks := tasks } f
      obtain ⟨gs, hw, hreq, hin⟩ := handleRequest_answers os
        (n := { r.st.node with tasks := tasks }) hp hup f
      refine ⟨hkept.protocol.trans hp, hkept.link.trans hup, gs, [f], hw,
        ⟨[], (List.append_nil _).symm, hreq⟩, ⟨[], ?_, ?_⟩, hin⟩
      · rw [List.append_nil]
        exact hkept.requests
      · rw [List.append_nil, htasks]
        exact congrArg (f :: ·) hkept.tasks.symm
  | timeout j =>
    simp only [step] at hst
    split at hst
    · rename_i hget
      cases hst
      exact ⟨hp, hup, [], [], .silent rfl (asked_set hget rfl rfl) ⟨[], by simp [setCall]⟩⟩
    · cases hst
  | cancel j =>
    simp only [step] at hst
    split at hst
    · rename_i hget
      cases hst
      exact ⟨hp, hup, [], [], .silent rfl (asked_set hget rfl rfl) ⟨[], by simp [setCall]⟩⟩
    · rename_i hget
      cases hst
      exact ⟨hp, hup, [], [], .silent rfl (asked_set hget rfl rfl) ⟨[], by simp [setCall]⟩⟩
    · cases hst
  | resume j =>
    simp only [step, resume] at hst
    split at hst
    · rename_i hget
      cases hst
      exact ⟨hp, hup, [], [], .silent rfl (asked_set hget rfl rfl) ⟨[], by simp [setCall, forget]⟩⟩
    · rename_i hget
      cases hst
      exact ⟨hp, hup, [], [], .silent rfl (asked_set hget rfl rfl) ⟨[], by simp [setCall]⟩⟩
    · rename_i hget
      cases hst
      exact ⟨hp, hup, [], [], .silent rfl (asked_set hget rfl rfl) ⟨[], by simp [setCall, forget]⟩⟩
    · cases hst
  | lost => exact absurd rfl hl

theorem emits_run {s t : Rx (Client φ) UInt8} {ls : List Lbl} (hi : Inv s)
    (hp : s.st.node.protocol = some 0) (hup : link s.st.node = some true)
    (hr : (lts os root files).Run s ls t) (hl : .lost ∉ ls) : ∃ gs hs, Emits os s t gs hs := by
  induction hr with
  | nil s => exact ⟨[], [], .silent rfl rfl ⟨[], by simp⟩⟩
  | @cons s r t l ls hst _ ih =>
    rw [List.mem_cons, not_or] at hl
    obtain ⟨hp', hup', gs, hs, hone⟩ := emits_step hi hst hp hup (Ne.symm hl.1)
    obtain ⟨gs', hs', hrest⟩ := ih (inv_step hi hst) hp' hup' hl.2
    exact ⟨gs ++ gs', hs ++ hs', hone.trans hrest⟩

/-- **Headline.** As long as the connection is up, what a client writes is whole frames, however the
steps of its calls and of its tasks alternate: the requests among them are those of its calls, in
order, and the others are one answer to each request of the peer, in the order they came. -/
theorem stream_wellFormed {s t : Rx (Client φ) UInt8} {ls : List Lbl}
    (h : (lts os root files).Reachable s) (hp : s.st.node.protocol = some 0)
    (hup : link s.st.node = some true) (hr : (lts os root files).Run s ls t) (hl : .lost ∉ ls) :
    ∃ gs hs : List Frame, written t.st.node = written s.st.node ++ gs.flatMap Frame.pack ∧
      gs.filter Frame.isRequest =
        ((asked os t.st).drop s.st.calls.length).filter Frame.fits ∧
      s.st.node.tasks ++ t.st.node.requests.drop s.st.node.requests.length =
        hs ++ t.st.node.tasks ∧
      InTurn os hs (gs.filter fun g => !g.isRequest) := by
  obtain ⟨gs, hs, he⟩ := emits_run ((inv os root files).reachable s h) hp hup hr hl
  obtain ⟨new, hnew, hcalls⟩ := he.calls
  obtain ⟨tasks, hreq, htasks⟩ := he.tasks
  have hlen : (asked os s.st).length = s.st.calls.length := List.length_map _
  refine ⟨gs, hs, he.stream, ?_, ?_, he.answers⟩
  · rw [hnew, ← hlen, List.drop_left, hcalls]
  · rw [hreq, List.drop_left, htasks]

/-! ## A directory is made here and listed there -/

section
open Wormhole.L5.MountAnswers (emptyDir readdir)

theorem stream_readdir : ∃ gs : List Frame, written answered.st.node = gs.flatMap Frame.pack ∧
    (gs.filter Frame.isRequest).map Frame.requestId = [1] ∧
    InTurn emptyDir [readdir] (gs.filter fun g => !g.isRequest) := by
  obtain ⟨gs, hs, hw, hreq, htasks, hin⟩ := stream_wellFormed started_reachable rfl rfl
    (.cons call_afterCall answered_run) (by simp [answering])
  have hone : [readdir] = hs ++ [] := htasks
  rw [List.append_nil] at hone
  refine ⟨gs, hw, ?_, hone ▸ hin⟩
  rw [hreq]
  rfl

end

end Wormhole.L5.MountStream
