import Wormhole.L5Concurrency.FtpSession

/-!
# Responses and their calls

`Phase` says where a session is when all its steps were clean: what is under
way in either direction is the command of the current call, or an upload's
data, or what is left of the server's answer. From it, `paired`.
-/
namespace Wormhole.L5.FtpSession
open Wormhole.L1 Wormhole.PosixPath Wormhole.L4.Ftp Wormhole.Decoder

variable {φ : Type}

/-! ## The invariant -/

/-- Nothing, or one response that is not a 150. -/
def OneReply (A : List Frame) : Prop :=
  A = [] ∨ ∃ code message, code < 65536 ∧ code ≠ 150 ∧ A = [response code message]

/-- The response to a `STOR` that opens. -/
abbrev readyFrame : Frame := response 150 "Ready to receive data"

/-- What a server has sent for the command of a call. -/
inductive Shape (server : FTPProtocol φ) (p : Pending) : List Frame → Prop
  | one {A} (h : OneReply A) (h2 : p.second = false) : Shape server p A
  | file {path e} (content : Bytes) {tail} (hp : p.call = .download path e) (h : FileEnd tail) :
    Shape server p (fileFrames content ++ tail)
  | ready {lp lf path} (hp : p.call = .upload lp lf path) (h2 : p.second = false)
    (ht : server.storTarget.isSome = true) (hk : server.storCommand = p.command) :
    Shape server p [readyFrame]
  | stored {lp lf path code message} (hp : p.call = .upload lp lf path) (h2 : p.second = true)
    (hc : code < 65536) (h : code ≠ 150) : Shape server p [readyFrame, response code message]
  | unsent {lp lf path} (hp : p.call = .upload lp lf path) (h2 : p.second = true) :
    Shape server p [readyFrame]

theorem Shape.of_stor {server server' : FTPProtocol φ} {p : Pending} {A : List Frame}
    (h : Shape server p A) (ht : server'.storTarget = server.storTarget)
    (hk : server'.storCommand = server.storCommand) : Shape server' p A := by
  cases h with
  | one h h2 => exact .one h h2
  | file content hp h => exact .file content hp h
  | ready hp h2 ht' hk' => exact .ready hp h2 (by rw [ht]; exact ht') (hk.trans hk')
  | stored hp h2 hc h => exact .stored hp h2 hc h
  | unsent hp h2 => exact .unsent hp h2

/-- The frames of an upload's data before their end. -/
def IsData (f : Frame) : Prop := f.msgType = MSG_DATA_START ∨ f.msgType = MSG_DATA

/-- A call whose command was sent. -/
structure Sendable (c : Call) : Prop where
  name : (encode c.request.1).length < 256
  localOk : LocalOk c
  file : ∀ lp lf path, c = .upload lp lf path → lf ≠ none

def requestFrame (c : Call) : Frame := ⟨MSG_COMMAND, commandPayload c.request.1 c.request.2⟩

/-- The outcomes that a call has taken before the one it waits for. -/
inductive Earlier (p : Pending) : List Outcome → Prop
  | first (h : p.second = false) : Earlier p []
  | second (m : String) (h : p.second = true) : Earlier p [.returned ⟨150, m⟩]

/-- Where a session is, with the frames under way to the client and to the
server. -/
inductive Phase (s : St φ) : List Frame → List Frame → Prop
  | idle (hc : s.current = none) (ht : s.server.st.tasks = [])
    (hn : s.server.st.answered.length = s.commands) : Phase s [] []
  | asked {p} (hc : s.current = some p) (h2 : p.second = false) (hs : Sendable p.call)
    (ht : s.server.st.tasks = []) (hf : s.client.st.future = .pending)
    (hk : s.server.st.answered.length = p.command) (hn : s.commands = p.command + 1) :
    Phase s [] [requestFrame p.call]
  | queued {p} (hc : s.current = some p) (h2 : p.second = false) (hs : Sendable p.call)
    (ht : s.server.st.tasks = [(requestFrame p.call).payload])
    (hf : s.client.st.future = .pending)
    (hk : s.server.st.answered.length = p.command) (hn : s.commands = p.command + 1) :
    Phase s [] []
  | answering {p pre F earlier now d} (hc : s.current = some p) (hs : Sendable p.call)
    (ht : s.server.st.tasks = []) (hA : s.server.st.answered[p.command]? = some (pre ++ F))
    (hk : s.server.st.answered.length = p.command + 1) (hn : s.commands = p.command + 1)
    (hS : Shape s.server.st p (pre ++ F)) (he : Earlier p earlier)
    (hr : replies pre = earlier ++ now) (hl : now.length ≤ 1)
    (hf : s.client.st.future = Future.pending.sets now)
    (hd : (s.client.st.dataBuffer, s.client.st.receivingData) = pre.foldl dataStep d) :
    Phase s F []
  | uploading {p lp lf path data} (hc : s.current = some p) (hs : Sendable p.call)
    (hp : p.call = .upload lp lf path) (h2 : p.second = true) (ht : s.server.st.tasks = [])
    (hf : s.client.st.future = .pending)
    (hA : s.server.st.answered[p.command]? = some [readyFrame])
    (hk : s.server.st.answered.length = p.command + 1) (hn : s.commands = p.command + 1)
    (hst : s.server.st.storTarget.isSome = true) (hsk : s.server.st.storCommand = p.command)
    (hd : ∀ f ∈ data, IsData f) : Phase s [] (data ++ [⟨MSG_DATA_END, []⟩])

/-- The commands of the calls that have ended come before this one. -/
def St.base (s : St φ) : Nat :=
  match s.current with
  | some p => p.command
  | none => s.commands

structure Inv (s : St φ) : Prop where
  client : s.client.st.isServer = false
  server : s.server.st.isServer = true
  before : ∀ e ∈ s.ended, ∀ k, e.command = some k → k < s.base
  right : ∀ e ∈ s.ended, Right s.server.st.answered e
  phase : ∃ F G, decoder.Decodes (s.client.buf ++ s.server.st.out) F [] ∧
    decoder.Decodes (s.server.buf ++ s.client.st.out) G [] ∧ Phase s F G

/-! ## What is under way -/

/-- Frames written to a connection are behind what was under way. -/
theorem decodes_sent {buf out : Bytes} {F fs : List Frame}
    (h : decoder.Decodes (buf ++ out) F []) (hf : ∀ f ∈ fs, f.fits = true) :
    decoder.Decodes (buf ++ (out ++ fs.flatMap Frame.pack)) (F ++ fs) [] := by
  have hfs : decoder.Decodes (fs.flatMap Frame.pack ++ []) fs [] :=
    Decodes.of_encoded (fun f hm tl => pack_look (hf f hm) tl) []
  rw [List.append_nil] at hfs
  rw [← List.append_assoc]
  exact (h.append _).trans hfs

/-- What a delivery hands over and what it leaves. -/
theorem delivered (os : Os φ) {r : Rx (FTPProtocol φ) UInt8} {out : Bytes} {F : List Frame}
    (n : Nat) (h : decoder.Decodes (r.buf ++ out) F []) :
    ∃ bs rest, F = bs ++ rest ∧ bs = taken decoder (dispatch os) r (out.take n) ∧
      (onData decoder (dispatch os) r (out.take n)).1.st = handled (dispatch os) r.st bs ∧
      decoder.Decodes ((onData decoder (dispatch os) r (out.take n)).1.buf ++ out.drop n) rest [] := by
  rw [← List.take_append_drop n out] at h
  obtain ⟨rest, hF, hrest⟩ := onData_pending (H := dispatch os) h
  exact ⟨_, rest, hF, rfl, (onData_taken r _).2, hrest⟩

/-! ## Server steps -/

/-- Data before its end only fills the buffer. -/
theorem handled_data (os : Os φ) (p : FTPProtocol φ) {fs : List Frame} (h : ∀ f ∈ fs, IsData f) :
    ∃ d, handled (dispatch os) p fs = p.took p.future d := by
  induction fs generalizing p with
  | nil => exact ⟨(p.dataBuffer, p.receivingData), rfl⟩
  | cons f fs ih =>
    have hstep : ∃ d, (dispatch os p f).1 = p.took p.future d := by
      have h1 : MSG_DATA_START ≠ MSG_COMMAND ∧ MSG_DATA_START ≠ MSG_RESPONSE := by decide
      have h2 : MSG_DATA ≠ MSG_COMMAND ∧ MSG_DATA ≠ MSG_RESPONSE ∧ MSG_DATA ≠ MSG_DATA_START := by
        decide
      unfold dispatch
      obtain hf | hf := h f (List.mem_cons_self ..)
      · rw [hf, if_neg h1.1, if_neg h1.2, if_pos rfl]
        exact ⟨([], true), rfl⟩
      · rw [hf, if_neg h2.1, if_neg h2.2.1, if_neg h2.2.2, if_pos rfl]
        simp only
        split
        · exact ⟨(p.dataBuffer ++ f.payload, p.receivingData), rfl⟩
        · exact ⟨(p.dataBuffer, p.receivingData), rfl⟩
    obtain ⟨d, hd⟩ := hstep
    obtain ⟨d', hd'⟩ := ih (p := p.took p.future d) fun g hg => h g (List.mem_cons_of_mem _ hg)
    refine ⟨d', ?_⟩
    rw [handled, hd, hd']
    rfl

/-- The end of an upload's data: one response, unless its text does not fit. -/
theorem dispatch_dataEnd (os : Os φ) {p : FTPProtocol φ} (hs : p.isServer = true)
    (ht : p.storTarget.isSome = true) :
    (dispatch os p ⟨MSG_DATA_END, []⟩).1.isServer = true ∧
      (dispatch os p ⟨MSG_DATA_END, []⟩).1.tasks = p.tasks ∧
      (((dispatch os p ⟨MSG_DATA_END, []⟩).1.out = p.out ∧
          (dispatch os p ⟨MSG_DATA_END, []⟩).1.answered = p.answered) ∨
        ∃ code message, code < 65536 ∧ code ≠ 150 ∧ (response code message).fits = true ∧
          (dispatch os p ⟨MSG_DATA_END, []⟩).1.out = p.out ++ (response code message).pack ∧
          (dispatch os p ⟨MSG_DATA_END, []⟩).1.answered =
            p.answered.modify p.storCommand (· ++ [response code message])) := by
  obtain ⟨target, ht⟩ := Option.isSome_iff_exists.mp ht
  have hd : dispatch os p ⟨MSG_DATA_END, []⟩ =
      handleDataComplete os { p with receivingData := false } := rfl
  rw [hd]
  unfold handleDataComplete
  simp only [hs, ht]
  cases hw : (os.write p.files target p.dataBuffer).2 with
  | none =>
    simp only
    split
    · exact ⟨rfl, rfl, .inr ⟨226, _, by omega, by omega, by assumption, rfl, rfl⟩⟩
    · exact ⟨rfl, rfl, .inl ⟨rfl, rfl⟩⟩
  | some e =>
    simp only
    split
    · exact ⟨rfl, rfl, .inr ⟨550, e, by omega, by omega, by assumption, rfl, rfl⟩⟩
    · exact ⟨rfl, rfl, .inl ⟨rfl, rfl⟩⟩

/-! ## Calls that have ended -/

theorem right_of_agree {xs ys : List (List Frame)} {e : Ended} (h : Right xs e)
    (ha : ∀ k, e.command = some k → ys[k]? = xs[k]?) : Right ys e := by
  intro k hk
  obtain ⟨A, f, hA, hf⟩ := h k hk
  exact ⟨A, f, by rw [ha k hk, hA], hf⟩

/-! ## Calls -/

/-- A call that ends before anything is sent. -/
theorem inv_refused {s : St φ} (hi : Inv s) (hcur : s.current = none)
    {f : FTPProtocol φ → FTPProtocol φ} (hs : (f s.client.st).isServer = s.client.st.isServer)
    (ho : (f s.client.st).out = s.client.st.out) (call : Call) (outcome : Outcome) :
    Inv ((s.mapClient f).finish call none outcome none) := by
  obtain ⟨hcl, hsv, hb, hr, F, G, hF, hG, hp⟩ := hi
  have hbase : s.base = s.commands := by unfold St.base; rw [hcur]
  rw [hbase] at hb
  refine ⟨hs.trans hcl, hsv, ?_, ?_, F, G, hF, ?_, ?_⟩
  · intro e he k hk
    obtain he | he := List.mem_append.mp he
    · exact hb e he k hk
    · rw [List.mem_singleton.mp he] at hk
      cases hk
  · intro e he
    obtain he | he := List.mem_append.mp he
    · exact hr e he
    · rw [List.mem_singleton.mp he]
      exact fun k hk => nomatch hk
  · show decoder.Decodes (s.server.buf ++ (f s.client.st).out) G []
    rw [ho]
    exact hG
  · cases hp with
    | idle hc ht hn => exact .idle rfl ht hn
    | _ => simp_all

theorem startCall_wire (call : Call) (p : FTPProtocol φ) :
    (startCall call p).isServer = p.isServer ∧ (startCall call p).out = p.out ∧
      (startCall call p).future = .pending := by
  unfold startCall
  split <;> exact ⟨rfl, rfl, rfl⟩

theorem inv_call {s : St φ} (hi : Inv s) {call : Call} (hcur : s.current = none)
    (hlocal : LocalOk call) : Inv (begin s call) := by
  unfold begin
  split
  · exact inv_refused (f := id) hi hcur rfl rfl _ _
  · rename_i hfile
    obtain ⟨hserver, hout, hfut⟩ := startCall_wire call s.client.st
    simp only
    split
    · exact inv_refused hi hcur hserver hout _ _
    · rename_i hname
      split
      · rename_i hfits
        obtain ⟨hcl, hsv, hb, hr, F, G, hF, hG, hp⟩ := hi
        have hbase : s.base = s.commands := by unfold St.base; rw [hcur]
        rw [hbase] at hb
        cases hp with
        | idle hc ht hn =>
          have hsend : Sendable call := by
            refine ⟨by omega, hlocal, ?_⟩
            rintro lp lf path rfl rfl
            exact hfile lp path rfl
          refine ⟨hserver.trans hcl, hsv, hb, hr, [], [requestFrame call], hF, ?_, ?_⟩
          · have hone : ∀ f ∈ [requestFrame call], f.fits = true := by
              intro f hf
              rw [List.mem_singleton.mp hf]
              exact hfits
            have := decodes_sent hG hone
            rw [List.flatMap_singleton, List.nil_append, ← hout] at this
            exact this
          · exact .asked (p := ⟨call, false, s.commands⟩) rfl rfl hsend ht hfut hn rfl
        | _ => simp_all
      · exact inv_refused hi hcur hserver hout _ _

/-! ## What an answer says -/

/-- The last frame of an answer says `x`. -/
def Speaks (A : List Frame) (x : Outcome) : Prop := ∃ f, A.getLast? = some f ∧ said f = some x

theorem Speaks.replies {A : List Frame} {x : Outcome} (h : Speaks A x) :
    ∃ ys, replies A = ys ++ [x] := by
  obtain ⟨f, hf, hx⟩ := h
  obtain ⟨xs, rfl⟩ := List.getLast?_eq_some_iff.mp hf
  refine ⟨L4.Ftp.replies xs, ?_⟩
  rw [replies_append]
  unfold L4.Ftp.replies
  rw [List.filterMap_cons_some hx]
  rfl

/-- An answer whose last frame was not taken has something left to say. -/
theorem Speaks.eq_nil {pre F : List Frame} {x : Outcome} (h : Speaks (pre ++ F) x)
    (hF : L4.Ftp.replies F = []) : F = [] := by
  by_contra hne
  obtain ⟨f, hf, hx⟩ := h
  rw [List.getLast?_append_of_ne_nil _ hne] at hf
  have hs : Speaks F x := ⟨f, hf, hx⟩
  obtain ⟨ys, hys⟩ := hs.replies
  rw [hF] at hys
  exact absurd hys.symm (by simp)

theorem speaks_response {code : Nat} (message : String) (h : code < 65536) (A : List Frame) :
    Speaks (A ++ [response code message]) (.returned ⟨code, message⟩) :=
  ⟨_, List.getLast?_concat .., said_response message h⟩

theorem speaks_file (content : Bytes) {tail : List Frame} (h : FileEnd tail) :
    ∃ x, Speaks (fileFrames content ++ tail) x ∧
      replies (fileFrames content ++ tail) = [.returned ⟨150, "Opening data connection"⟩, x] ∧
      ∀ m, x ≠ .returned ⟨150, m⟩ := by
  obtain ⟨f, x, hf, hx, hr, h150⟩ := replies_fileEnd h
  refine ⟨x, ⟨f, ?_, hx⟩, ?_, h150⟩
  · rw [List.getLast?_append_of_ne_nil _ (by rintro rfl; cases hf), hf]
  · rw [replies_append, replies_fileFrames, hr]
    rfl

/-- **The final response** is the last frame, and nothing is left under way. -/
theorem shape_final {server : FTPProtocol φ} {p : Pending} {pre F : List Frame}
    {earlier : List Outcome} {o : Outcome} (hS : Shape server p (pre ++ F)) (he : Earlier p earlier)
    (hr : replies pre = earlier ++ [o]) (ho : ∀ m, o ≠ .returned ⟨150, m⟩) :
    F = [] ∧ Speaks pre o := by
  have hA : replies (pre ++ F) = earlier ++ [o] ++ replies F := by rw [replies_append, hr]
  have key : ∀ {x}, Speaks (pre ++ F) x → replies F = [] → F = [] ∧ Speaks pre o := by
    intro x hx hF
    have hnil := hx.eq_nil hF
    refine ⟨hnil, ?_⟩
    rw [hnil, List.append_nil] at hx
    obtain ⟨ys, hys⟩ := hx.replies
    rw [hr] at hys
    obtain ⟨-, hox⟩ := List.append_inj' hys rfl
    rw [List.singleton_inj.mp hox]
    exact hx
  generalize hAll : pre ++ F = A at hS hA key
  cases hS with
  | one h h2 =>
    cases he with
    | first =>
      obtain rfl | ⟨code, message, hc, -, rfl⟩ := h
      · cases hA
      · rw [replies_response message hc] at hA
        injection hA with _ hnil
        exact key (speaks_response message hc []) hnil.symm
    | second m h => rw [h2] at h; cases h
  | file content hp hend =>
    obtain ⟨x, hx, hrep, -⟩ := speaks_file content hend
    rw [hrep] at hA
    cases he with
    | first =>
      injection hA with h1 _
      exact absurd h1.symm (ho _)
    | second m =>
      injection hA with _ h2
      injection h2 with _ hnil
      exact key hx hnil.symm
  | ready hp h2 ht hk =>
    rw [replies_response _ (by omega)] at hA
    cases he with
    | first =>
      injection hA with h1 _
      exact absurd h1.symm (ho _)
    | second m h => rw [h2] at h; cases h
  | stored hp h2 hc h =>
    have hrep : ∀ f : Frame, replies [readyFrame, f] = replies [readyFrame] ++ replies [f] :=
      fun f => replies_append [readyFrame] [f]
    rw [hrep, replies_response _ (by omega), replies_response _ hc] at hA
    cases he with
    | first h => rw [h2] at h; cases h
    | second m =>
      injection hA with _ h2
      injection h2 with _ hnil
      exact key (speaks_response _ hc [readyFrame]) hnil.symm
  | unsent hp h2 =>
    rw [replies_response _ (by omega)] at hA
    cases he with
    | first h => rw [h2] at h; cases h
    | second m =>
      injection hA with _ h2
      cases h2

/-- **A preliminary response** is the first of a file, or that of a `STOR`. -/
theorem shape_preliminary {server : FTPProtocol φ} {p : Pending} {pre F : List Frame}
    {earlier : List Outcome} {m : String} (hS : Shape server p (pre ++ F)) (he : Earlier p earlier)
    (hr : replies pre = earlier ++ [.returned ⟨150, m⟩]) :
    p.second = false ∧
      ((∃ path e content tail, p.call = .download path e ∧ FileEnd tail ∧
          pre ++ F = fileFrames content ++ tail) ∨
        ∃ lp lf path, p.call = .upload lp lf path ∧ F = [] ∧ pre = [readyFrame] ∧
          server.storTarget.isSome = true ∧ server.storCommand = p.command) := by
  have hA : replies (pre ++ F) = earlier ++ [.returned ⟨150, m⟩] ++ replies F := by
    rw [replies_append, hr]
  generalize hAll : pre ++ F = A at hS hA
  cases hS with
  | one h h2 =>
    cases he with
    | first =>
      obtain rfl | ⟨code, message, hc, hne, rfl⟩ := h
      · cases hA
      · rw [replies_response message hc] at hA
        injection hA with h1 _
        injection h1 with h1
        injection h1 with h1 _
        exact absurd h1 hne
    | second m h => rw [h2] at h; cases h
  | file content hp hend =>
    obtain ⟨x, -, hrep, h150⟩ := speaks_file content hend
    rw [hrep] at hA
    cases he with
    | first h => exact ⟨h, .inl ⟨_, _, content, _, hp, hend, rfl⟩⟩
    | second m =>
      injection hA with _ h2
      injection h2 with h2 _
      exact absurd h2 (h150 _)
  | ready hp h2 ht hk =>
    obtain ⟨rfl, -⟩ | ⟨rfl, rfl⟩ := List.append_eq_singleton_iff.mp hAll
    · exact absurd hr.symm (by simp [replies])
    · exact ⟨h2, .inr ⟨_, _, _, hp, rfl, rfl, ht, hk⟩⟩
  | stored hp h2 hc h =>
    have hrep : ∀ f : Frame, replies [readyFrame, f] = replies [readyFrame] ++ replies [f] :=
      fun f => replies_append [readyFrame] [f]
    rw [hrep, replies_response _ (by omega), replies_response _ hc] at hA
    cases he with
    | first h => rw [h2] at h; cases h
    | second m =>
      injection hA with _ h2
      injection h2 with h2 _
      injection h2 with h2
      injection h2 with h2 _
      exact absurd h2 h
  | unsent hp h2 =>
    rw [replies_response _ (by omega)] at hA
    cases he with
    | first h => rw [h2] at h; cases h
    | second m =>
      injection hA with _ h2
      cases h2

/-! ## Going on with a response -/

theorem sets_eq_done {now : List Outcome} {o : Outcome} (hl : now.length ≤ 1)
    (h : Future.done o = Future.pending.sets now) : now = [o] := by
  cases now with
  | nil => cases h
  | cons x xs =>
    cases xs with
    | nil => cases h; rfl
    | cons y ys => simp at hl

/-- What is known when the current call can go on with `o`. -/
structure Resumes (s : St φ) (p : Pending) (o : Outcome) (pre F : List Frame)
    (earlier : List Outcome) : Prop where
  sendable : Sendable p.call
  tasks : s.server.st.tasks = []
  answered : s.server.st.answered[p.command]? = some (pre ++ F)
  length : s.server.st.answered.length = p.command + 1
  commands : s.commands = p.command + 1
  shape : Shape s.server.st p (pre ++ F)
  taken : Earlier p earlier
  replies : L4.Ftp.replies pre = earlier ++ [o]
  data : ∃ d, (s.client.st.dataBuffer, s.client.st.receivingData) = pre.foldl dataStep d
  toClient : decoder.Decodes (s.client.buf ++ s.server.st.out) F []
  toServer : decoder.Decodes (s.server.buf ++ s.client.st.out) [] []

theorem resumes_of_done {s : St φ} (hi : Inv s) {p : Pending} {o : Outcome}
    (hcur : s.current = some p) (hf : s.client.st.future = .done o) :
    ∃ pre F earlier, Resumes s p o pre F earlier := by
  obtain ⟨-, -, -, -, F, G, hF, hG, hp⟩ := hi
  cases hp with
  | idle hc => rw [hcur] at hc; cases hc
  | asked _ _ _ _ hf' | queued _ _ _ _ hf' | uploading _ _ _ _ _ hf' => rw [hf] at hf'; cases hf'
  | answering hc hs ht hA hk hn hS he hr hl hf' hd =>
    rw [hcur] at hc
    cases hc
    rw [hf] at hf'
    rw [sets_eq_done hl hf'] at hr
    exact ⟨_, _, _, hs, ht, hA, hk, hn, hS, he, hr, ⟨_, hd⟩, hF, hG⟩

/-- A call ends, and nothing is under way. -/
theorem inv_finish {s : St φ} (hi : Inv s) {p : Pending} {o x : Outcome} {pre F : List Frame}
    {earlier : List Outcome} {written : Option Bytes} (hcur : s.current = some p)
    (hres : Resumes s p x pre F earlier) (hF : F = [])
    (hright : Right s.server.st.answered ⟨p.call, some p.command, o, written⟩) :
    Inv ((s.mapClient fun q => { q with future := .settled }).finish p.call (some p.command) o
      written) := by
  obtain ⟨hcl, hsv, hb, hr, -⟩ := hi
  have hbase : s.base = p.command := by unfold St.base; rw [hcur]
  rw [hbase] at hb
  refine ⟨hcl, hsv, ?_, ?_, [], [], hF ▸ hres.toClient, hres.toServer, ?_⟩
  · intro e he k hk
    show k < s.commands
    rw [hres.commands]
    obtain he | he := List.mem_append.mp he
    · exact Nat.lt_succ_of_lt (hb e he k hk)
    · rw [List.mem_singleton.mp he] at hk
      cases hk
      exact Nat.lt_succ_self _
  · intro e he
    obtain he | he := List.mem_append.mp he
    · exact hr e he
    · rw [List.mem_singleton.mp he]
      exact hright
  · refine .idle rfl hres.tasks ?_
    show s.server.st.answered.length = s.commands
    rw [hres.length, hres.commands]

theorem speaks_wholeFile (content : Bytes) :
    Speaks (wholeFile content) (.returned ⟨226, "Transfer complete"⟩) := by
  have h : wholeFile content =
      (fileFrames content ++ [⟨MSG_DATA_END, []⟩]) ++ [response 226 "Transfer complete"] := by
    simp [wholeFile]
  rw [h]
  exact speaks_response _ (by omega) _

theorem Speaks.unique {A : List Frame} {x y : Outcome} (hx : Speaks A x) (hy : Speaks A y) :
    x = y := by
  obtain ⟨f, hf, hx⟩ := hx
  obtain ⟨g, hg, hy⟩ := hy
  rw [hf] at hg
  cases hg
  rw [hx] at hy
  exact Option.some.inj hy

/-- Only a download that awaits its second response has seen a whole file. -/
theorem not_wholeFile {p : Pending} {A : List Frame} {earlier : List Outcome} {o : Outcome}
    (hr : replies A = earlier ++ [o]) (he : Earlier p earlier) (hx : Speaks A o)
    (h : p.second = false ∨ ∀ m, o ≠ .returned ⟨226, m⟩) (content : Bytes) :
    A ≠ wholeFile content := by
  rintro rfl
  obtain h2 | h226 := h
  · cases he with
    | first =>
      obtain ⟨x, -, hrep, -⟩ := speaks_file content .whole
      have := hr.symm.trans hrep
      simp at this
    | second m h => rw [h2] at h; cases h
  · exact h226 _ ((speaks_wholeFile content).unique hx).symm

/-- A final response that is returned as it is. -/
theorem right_final {answered : List (List Frame)} {p : Pending} {A : List Frame}
    {earlier : List Outcome} {o : Outcome} (hA : answered[p.command]? = some A)
    (hr : replies A = earlier ++ [o]) (he : Earlier p earlier) (hx : Speaks A o)
    (ho : ∀ m, o ≠ .returned ⟨150, m⟩)
    (hd : ∀ path e, p.call = .download path e → p.second = false ∨ ∀ m, o ≠ .returned ⟨226, m⟩) :
    Right answered ⟨p.call, some p.command, o, none⟩ := by
  rintro k ⟨⟩
  have hwhole := fun path e hc => not_wholeFile hr he hx (hd path e hc)
  obtain ⟨f, hf, hs⟩ := hx
  refine ⟨A, f, hA, hf, ?_⟩
  cases hc : p.call with
  | send | upload => exact ⟨hs, ho⟩
  | download path e => exact .inr ⟨hwhole path e hc, hs, ho, rfl⟩

/-- A call ends with an exception of the server. -/
theorem inv_raised {s : St φ} (hi : Inv s) {p : Pending} {e : String} (hcur : s.current = some p)
    (hf : s.client.st.future = .done (.raised e)) :
    Inv ((s.mapClient fun q => { q with future := .settled }).finish p.call (some p.command)
      (.raised e) none) := by
  obtain ⟨pre, F, earlier, hres⟩ := resumes_of_done hi hcur hf
  obtain ⟨rfl, hx⟩ := shape_final hres.shape hres.taken hres.replies nofun
  have hA := hres.answered
  rw [List.append_nil] at hA
  exact inv_finish hi hcur hres rfl
    (right_final hA hres.replies hres.taken hx nofun fun _ _ _ => .inr nofun)

/-- A download that got its 226 has seen a whole file. -/
theorem eq_wholeFile {server : FTPProtocol φ} {p : Pending} {path : String} {e : Option String}
    {A : List Frame} {m : String} (hS : Shape server p A) (hp : p.call = .download path e)
    (h2 : p.second = true) (hx : Speaks A (.returned ⟨226, m⟩)) :
    ∃ content, A = wholeFile content := by
  cases hS with
  | one h h2' => rw [h2] at h2'; cases h2'
  | ready hp' | stored hp' | unsent hp' => rw [hp] at hp'; cases hp'
  | file content hp' hend =>
    refine ⟨content, ?_⟩
    cases hend with
    | whole => rfl
    | error e =>
      obtain ⟨x, hs⟩ := said_error e
      have hlast : Speaks (fileFrames content ++ [⟨MSG_ERROR, encode e⟩]) (.raised x) :=
        ⟨_, List.getLast?_concat .., hs⟩
      cases hx.unique hlast
    | tooLong =>
      have := hx.unique (speaks_response structError (by omega : 550 < 65536) (fileFrames content))
      simp at this

/-- The second wait of a download. -/
theorem inv_awaitEnd {s : St φ} (hi : Inv s) {p : Pending} {m : String} {pre F : List Frame}
    {earlier : List Outcome} {path : String} {e : Option String} {content : Bytes}
    {tail : List Frame} (hcur : s.current = some p)
    (hres : Resumes s p (.returned ⟨150, m⟩) pre F earlier) (h2 : p.second = false)
    (hp : p.call = .download path e) (hend : FileEnd tail)
    (hA : pre ++ F = fileFrames content ++ tail) :
    Inv { s.mapClient fun q => { q with future := .pending, out := q.out ++ [] } with
      current := some { p with second := true } } := by
  obtain ⟨hcl, hsv, hb, hr, -⟩ := hi
  obtain ⟨d, hd⟩ := hres.data
  have hbase : s.base = p.command := by unfold St.base; rw [hcur]
  rw [hbase] at hb
  have hnil : earlier = [] := by
    cases hres.taken with
    | first => rfl
    | second m h => rw [h2] at h; cases h
  have hrep := hres.replies
  rw [hnil] at hrep
  refine ⟨hcl, hsv, hb, hr, F, [], hres.toClient, ?_, ?_⟩
  · show decoder.Decodes (s.server.buf ++ (s.client.st.out ++ [])) [] []
    rw [List.append_nil]
    exact hres.toServer
  · refine .answering (p := { p with second := true }) rfl hres.sendable
      hres.tasks hres.answered hres.length hres.commands ?_ (.second m rfl) hrep (Nat.zero_le _)
      rfl hd
    rw [hA]
    exact .file (p := { p with second := true }) content hp hend

/-- An upload sends its data. -/
theorem inv_sendData {s : St φ} (hi : Inv s) {p : Pending} {m : String} {pre F : List Frame}
    {earlier : List Outcome} {lp : String} {lf : Option (Bytes × Option String)} {path : String}
    (content : Bytes) (hcur : s.current = some p)
    (hres : Resumes s p (.returned ⟨150, m⟩) pre F earlier)
    (hp : p.call = .upload lp lf path) (hF : F = []) (hpre : pre = [readyFrame])
    (hst : s.server.st.storTarget.isSome = true) (hsk : s.server.st.storCommand = p.command) :
    Inv { s.mapClient fun q => { q with
        future := .pending
        out := q.out ++
          (uploadFrames content ++ [(⟨MSG_DATA_END, []⟩ : Frame)]).flatMap Frame.pack } with
      current := some { p with second := true } } := by
  obtain ⟨hcl, hsv, hb, hr, -⟩ := hi
  have hbase : s.base = p.command := by unfold St.base; rw [hcur]
  rw [hbase] at hb
  subst hF hpre
  have hdata : ∀ f ∈ uploadFrames content, IsData f ∧ f.fits = true := by
    intro f hf
    obtain rfl | hf := List.mem_cons.mp hf
    · exact ⟨.inl rfl, rfl⟩
    · obtain ⟨c, hc, rfl⟩ := List.mem_map.mp hf
      have := length_of_mem_reads hc
      exact ⟨.inr rfl, decide_eq_true (by simp only; omega)⟩
  have hfits : ∀ f ∈ uploadFrames content ++ [⟨MSG_DATA_END, []⟩], f.fits = true := by
    intro f hf
    obtain hf | hf := List.mem_append.mp hf
    · exact (hdata f hf).2
    · rw [List.mem_singleton.mp hf]
      rfl
  refine ⟨hcl, hsv, hb, hr, [], uploadFrames content ++ [(⟨MSG_DATA_END, []⟩ : Frame)],
    hres.toClient,
    decodes_sent hres.toServer hfits, ?_⟩
  exact .uploading (p := { p with second := true }) rfl hres.sendable hp rfl hres.tasks rfl
    hres.answered hres.length hres.commands hst hsk fun f hf => (hdata f hf).1

/-- The current call goes on with a response. -/
theorem inv_proceed {s : St φ} (hi : Inv s) {p : Pending} {r : Response} (hcur : s.current = some p)
    (hf : s.client.st.future = .done (.returned r)) : Inv (proceed s p r) := by
  obtain ⟨pre, F, earlier, hres⟩ := resumes_of_done hi hcur hf
  by_cases h150 : r.code = 150
  · obtain ⟨code, m⟩ := r
    subst h150
    obtain ⟨h2, ⟨path, e, content, tail, hp, hend, hA⟩ | ⟨lp, lf, path, hp, hF, hpre, hst, hsk⟩⟩ :=
      shape_preliminary hres.shape hres.taken hres.replies
    · simp only [proceed, hp, h2]
      rw [← hp]
      exact inv_awaitEnd hi hcur hres h2 hp hend hA
    · obtain ⟨content, hlf⟩ : ∃ content, lf = some (content, none) := by
        have h1 := hres.sendable.file lp lf path hp
        have h3 := hres.sendable.localOk
        rw [hp] at h3
        cases lf with
        | none => exact absurd rfl h1
        | some x =>
          obtain ⟨content, e⟩ := x
          cases e with
          | none => exact ⟨content, rfl⟩
          | some e => exact absurd rfl (h3 content e)
      subst hlf
      simp only [proceed, hp, h2, Option.getD_some]
      rw [← hp]
      exact inv_sendData hi content hcur hres hp hF hpre hst hsk
  · have ho : ∀ m, Outcome.returned r ≠ .returned ⟨150, m⟩ := by
      rintro m ⟨⟩
      exact h150 rfl
    obtain ⟨rfl, hx⟩ := shape_final hres.shape hres.taken hres.replies ho
    have hA := hres.answered
    rw [List.append_nil] at hA
    have hends : (∀ path e, p.call = .download path e → p.second = false ∨
        ∀ m, Outcome.returned r ≠ .returned ⟨226, m⟩) →
        Inv ((s.mapClient fun q => { q with future := .settled }).finish p.call (some p.command)
          (.returned r) none) := fun hd =>
      inv_finish hi hcur hres rfl (right_final hA hres.replies hres.taken hx ho hd)
    unfold proceed
    simp only
    split
    · exact hends fun path e hc => by simp_all
    · exact hends fun path e hc => by simp_all
    · rw [if_pos h150]
      exact hends fun path e hc => by simp_all
    · rename_i h2
      rw [if_pos h150]
      exact hends fun path e hc => .inl h2
    · rename_i path e hp h2
      split
      · rename_i h226
        refine hends fun _ _ _ => .inr ?_
        rintro m ⟨⟩
        exact h226 rfl
      · rename_i h226
        obtain ⟨code, m⟩ := r
        obtain rfl : code = 226 := not_not.mp h226
        have hS := hres.shape
        rw [List.append_nil] at hS
        obtain ⟨content, rfl⟩ := eq_wholeFile hS hp h2 hx
        have hlocal := hres.sendable.localOk
        rw [hp] at hlocal
        obtain rfl : e = none := hlocal
        obtain ⟨d, hd⟩ := hres.data
        rw [dataStep_wholeFile] at hd
        injection hd with hd _
        simp only [hd]
        refine inv_finish hi hcur hres rfl ?_
        rintro k ⟨⟩
        obtain ⟨f, hf, hs⟩ := hx
        refine ⟨_, f, hA, hf, ?_⟩
        rw [hp]
        exact .inl ⟨content, rfl, rfl, rfl⟩

/-! ## Commands -/

theorem upper_stor (os : Os φ) : os.upper "STOR" = "STOR" := rfl

theorem upper_retr (os : Os φ) : os.upper "RETR" = "RETR" := rfl

theorem command_stor (os : Os φ) (q : FTPProtocol φ) (path : String) :
    command os q "STOR" path = cmdStor q path := by
  unfold command
  rw [if_neg (by decide), if_neg (by decide), if_neg (by decide), if_neg (by decide), if_pos rfl]

theorem command_retr (os : Os φ) (q : FTPProtocol φ) (path : String) :
    command os q "RETR" path = cmdRetr os q path := by
  unfold command
  rw [if_neg (by decide), if_neg (by decide), if_neg (by decide), if_pos rfl]

/-- A command leaves the wire alone, and its answer has the shape of its call's. -/
def Leaves (q : FTPProtocol φ) (p : Pending) (r : Result φ) : Prop :=
  SameWire q r.ftp ∧ ∀ server : FTPProtocol φ, server.storTarget = r.ftp.storTarget →
    server.storCommand = r.ftp.storCommand → Shape server p (answer r)

theorem leaves_single {os : Os φ} {q : FTPProtocol φ} {p : Pending} {cmd args : String}
    (h2 : p.second = false) (h : opens os q cmd args = false) :
    Leaves q p (command os q cmd args) :=
  ⟨(single_command h).wire, fun _ _ _ => .one (answer_single (single_command h)) h2⟩

theorem leaves_stor (os : Os φ) {q : FTPProtocol φ} {p : Pending} {lp path : String}
    {lf : Option (Bytes × Option String)} (hc : p.call = .upload lp lf path)
    (h2 : p.second = false) (hk : q.answered.length = p.command) :
    Leaves q p (command os q "STOR" path) := by
  cases ho : opens os q "STOR" path with
  | false => exact leaves_single h2 ho
  | true =>
    obtain ⟨target, hr⟩ := cmdStor_opens ho
    rw [command_stor, hr]
    refine ⟨⟨rfl, rfl, rfl, rfl, rfl⟩, fun server ht hs => ?_⟩
    rw [answer_respond_stor]
    exact .ready hc h2 (by rw [ht]; rfl) (hs.trans hk)

theorem leaves_retr (os : Os φ) (q : FTPProtocol φ) {p : Pending} {path : String}
    {e : Option String} (hc : p.call = .download path e) (h2 : p.second = false) :
    Leaves q p (command os q "RETR" path) := by
  cases ho : opens os q "RETR" path with
  | false => exact leaves_single h2 ho
  | true =>
    obtain ⟨hftp, -, content, tail, -, -, hend, hans⟩ := answer_cmdRetr ho
    rw [command_retr]
    refine ⟨by rw [hftp]; exact .refl q, fun server _ _ => ?_⟩
    rw [hans]
    exact .file content hc hend

theorem leaves_request {os : Os φ} {q : FTPProtocol φ} {p : Pending} (h2 : p.second = false)
    (hk : q.answered.length = p.command)
    (hclean : ∀ cmd args, p.call = .send cmd args → opens os q (os.upper cmd) args = false) :
    Leaves q p (command os q (os.upper p.call.request.1) p.call.request.2) := by
  cases hc : p.call with
  | send cmd args => exact leaves_single h2 (hclean cmd args hc)
  | upload lp lf path =>
    have := leaves_stor os hc h2 hk
    rwa [← upper_stor os] at this
  | download path e =>
    have := leaves_retr os q hc h2
    rwa [← upper_retr os] at this

theorem inv_serve {os : Os φ} {s : St φ} (hi : Inv s) {payload : Bytes} {tasks : List Bytes}
    (ht : s.server.st.tasks = payload :: tasks) (hclean : Clean os s .serve) :
    Inv { s with
      server := ⟨runCommand os { s.server.st with tasks := tasks } payload, s.server.buf⟩ } := by
  obtain ⟨hcl, hsv, hb, hr, F, G, hF, hG, hp⟩ := hi
  cases hp with
  | idle _ ht' | asked _ _ _ ht' | answering _ _ ht' | uploading _ _ _ _ ht' =>
    rw [ht] at ht'
    cases ht'
  | @queued p hc h2 hs ht' hf hk hn =>
    rw [ht] at ht'
    cases ht'
    have hbase : s.base = p.command := by unfold St.base; rw [hc]
    obtain ⟨q, hq⟩ : ∃ q : FTPProtocol φ, q = { s.server.st with tasks := [] } := ⟨_, rfl⟩
    have hrun : runCommand os q (requestFrame p.call).payload =
        let r := command os q (os.upper p.call.request.1) p.call.request.2
        { r.ftp with
          out := r.ftp.out ++ (answer r).flatMap Frame.pack
          answered := r.ftp.answered ++ [answer r] } := by
      unfold runCommand
      rw [show (requestFrame p.call).payload =
        commandPayload p.call.request.1 p.call.request.2 from rfl, handleCommand_payload _ _ _ hs.name]
    have hleaves : Leaves q p (command os q (os.upper p.call.request.1) p.call.request.2) :=
      leaves_request h2 (by rw [hq]; exact hk) fun cmd args hcall => by
        rw [hq]
        exact hclean p cmd args hc hcall
    rw [← hq, hrun]
    generalize command os q (os.upper p.call.request.1) p.call.request.2 = r at hleaves
    obtain ⟨⟨w1, w2, w3, w4, w5⟩, hshape⟩ := hleaves
    have hout : r.ftp.out = s.server.st.out := by rw [w4, hq]
    have hans : r.ftp.answered = s.server.st.answered := by rw [w5, hq]
    refine ⟨hcl, by rw [← hsv]; exact w1.trans (by rw [hq]), hb, ?_, answer r, [], ?_, hG, ?_⟩
    · intro e he
      refine right_of_agree (hr e he) fun k hk' => ?_
      simp only [hans]
      exact List.getElem?_append_left (by rw [hk, ← hbase]; exact hb e he k hk')
    · simp only [hout]
      have := decodes_sent hF (fun f (hf : f ∈ answer r) => fits_of_mem_answer hf)
      rwa [List.nil_append] at this
    · have htasks : r.ftp.tasks = [] := by rw [w3, hq]
      refine .answering hc hs htasks ?_ ?_ hn
        (show Shape _ p ([] ++ answer r) from hshape _ rfl rfl) (.first h2) rfl (Nat.zero_le _) hf rfl
      · simp only [hans, ← hk]
        simp
      · simp [hans, hk]

/-! ## Deliveries to the server -/

/-- A delivery to the server that leaves what it has sent as it is. -/
theorem inv_silent {s : St φ} (hi : Inv s) {r : Rx (FTPProtocol φ) UInt8} {out : Bytes}
    {F G : List Frame} (hs : r.st.isServer = true) (ho : r.st.out = s.server.st.out)
    (ha : r.st.answered = s.server.st.answered)
    (hF : decoder.Decodes (s.client.buf ++ s.server.st.out) F [])
    (hG : decoder.Decodes (r.buf ++ out) G [])
    (hp : Phase { s with client := ⟨{ s.client.st with out := out }, s.client.buf⟩, server := r }
      F G) :
    Inv { s with client := ⟨{ s.client.st with out := out }, s.client.buf⟩, server := r } := by
  refine ⟨hi.client, hs, hi.before, fun e he => ?_, F, G, ?_, hG, hp⟩
  · exact right_of_agree (hi.right e he) fun k _ => by simp only [ha]
  · simp only [ho]
    exact hF

/-- The end of an upload's data arrives. -/
theorem inv_dataEnd {os : Os φ} {s : St φ} (hi : Inv s) {p : Pending} {lp path : String}
    {lf : Option (Bytes × Option String)} {q : FTPProtocol φ} {d : Bytes × Bool} {buf out : Bytes}
    (hc : s.current = some p) (hs : Sendable p.call) (hp : p.call = .upload lp lf path)
    (h2 : p.second = true) (hq : q = s.server.st.took s.server.st.future d)
    (ht : s.server.st.tasks = []) (hf : s.client.st.future = .pending)
    (hA : s.server.st.answered[p.command]? = some [readyFrame])
    (hk : s.server.st.answered.length = p.command + 1) (hn : s.commands = p.command + 1)
    (hst : s.server.st.storTarget.isSome = true) (hsk : s.server.st.storCommand = p.command)
    (hF : decoder.Decodes (s.client.buf ++ s.server.st.out) [] [])
    (hG : decoder.Decodes (buf ++ out) [] []) :
    Inv { s with
      client := ⟨{ s.client.st with out := out }, s.client.buf⟩
      server := ⟨(dispatch os q ⟨MSG_DATA_END, []⟩).1, buf⟩ } := by
  have hbase : s.base = p.command := by unfold St.base; rw [hc]
  have hqs : q.isServer = true := by rw [hq]; exact hi.server
  have hqt : q.storTarget.isSome = true := by rw [hq]; exact hst
  have hqk : q.storCommand = p.command := by rw [hq]; exact hsk
  have hqa : q.answered = s.server.st.answered := by rw [hq]; rfl
  have hqo : q.out = s.server.st.out := by rw [hq]; rfl
  have hqtasks : q.tasks = [] := by rw [hq]; exact ht
  obtain ⟨d1, d2, ⟨d3, d4⟩ | ⟨code, message, hcode, h150, hfits, d3, d4⟩⟩ :=
    dispatch_dataEnd os hqs hqt
  · rw [hqo] at d3
    rw [hqa] at d4
    refine inv_silent hi d1 d3 d4 hF hG ?_
    refine .answering (p := p) (F := []) hc hs
      (d2.trans hqtasks) ?_ (by simp only [d4]; exact hk) hn (.unsent hp h2)
      (.second _ h2) (replies_response _ (by omega)) (Nat.zero_le _) hf
      (d := (s.client.st.dataBuffer, s.client.st.receivingData)) ?_
    · simp only [d4]
      exact hA
    · rfl
  · rw [hqo] at d3
    rw [hqa, hqk] at d4
    refine ⟨hi.client, d1, hi.before, fun e he => ?_, [response code message], [], ?_, hG, ?_⟩
    · refine right_of_agree (hi.right e he) fun k hk' => ?_
      have hlt := hi.before e he k hk'
      rw [hbase] at hlt
      have hne : p.command ≠ k := by omega
      simp only [d4]
      rw [List.getElem?_modify]
      simp [hne]
    · have hone : ∀ f ∈ [response code message], f.fits = true := by simpa using hfits
      have := decodes_sent hF hone
      rw [List.flatMap_singleton, List.nil_append, ← d3] at this
      exact this
    · refine .answering (p := p) (F := [response code message])
        hc hs (d2.trans hqtasks) ?_ ?_ hn (.stored hp h2 hcode h150)
        (.second _ h2) (replies_response _ (by omega)) (Nat.zero_le _) hf
        (d := (s.client.st.dataBuffer, s.client.st.receivingData)) rfl
      · simp only [d4]
        rw [List.getElem?_modify, hA]
        simp
      · simp only [d4, List.length_modify]
        exact hk

theorem inv_toServer {os : Os φ} {s : St φ} (hi : Inv s) (n : Nat) :
    Inv { s with
      client := ⟨{ s.client.st with out := s.client.st.out.drop n }, s.client.buf⟩
      server := (onData decoder (dispatch os) s.server (s.client.st.out.take n)).1 } := by
  obtain ⟨F, G, hF, hG, hp⟩ := hi.phase
  obtain ⟨bs, rest, hsplit, -, hst, hrest⟩ := delivered os n hG
  generalize (onData decoder (dispatch os) s.server (s.client.st.out.take n)).1 = r at hst hrest
  obtain ⟨q, buf⟩ := r
  simp only at hst hrest
  cases hp with
  | idle hc ht hn =>
    obtain ⟨rfl, rfl⟩ := List.append_eq_nil_iff.mp hsplit.symm
    obtain rfl : q = s.server.st := hst
    exact inv_silent hi hi.server rfl rfl hF hrest (.idle hc ht hn)
  | queued hc h2 hs ht hf hk hn =>
    obtain ⟨rfl, rfl⟩ := List.append_eq_nil_iff.mp hsplit.symm
    obtain rfl : q = s.server.st := hst
    exact inv_silent hi hi.server rfl rfl hF hrest (.queued hc h2 hs ht hf hk hn)
  | answering hc hs ht hA hk hn hS he hr hl hf hd =>
    obtain ⟨rfl, rfl⟩ := List.append_eq_nil_iff.mp hsplit.symm
    obtain rfl : q = s.server.st := hst
    exact inv_silent hi hi.server rfl rfl hF hrest (.answering hc hs ht hA hk hn hS he hr hl hf hd)
  | @asked p hc h2 hs ht hf hk hn =>
    obtain ⟨rfl, rfl⟩ | ⟨rfl, rfl⟩ := List.append_eq_singleton_iff.mp hsplit.symm
    · obtain rfl : q = s.server.st := hst
      exact inv_silent hi hi.server rfl rfl hF hrest (.asked hc h2 hs ht hf hk hn)
    · obtain rfl : q = { s.server.st with
          tasks := s.server.st.tasks ++ [(requestFrame p.call).payload] } := hst
      refine inv_silent hi hi.server rfl rfl hF hrest (.queued hc h2 hs ?_ hf hk hn)
      simp only [ht, List.nil_append]
  | @uploading p lp lf path data hc hs hp h2 ht hf hA hk hn hst' hsk hd =>
    by_cases hnil : rest = []
    · subst hnil
      rw [List.append_nil] at hsplit
      subst hsplit
      obtain ⟨d, hq⟩ := handled_data os s.server.st hd
      rw [handled_append, hq] at hst
      subst hst
      exact inv_dataEnd hi hc hs hp h2 rfl ht hf hA hk hn hst' hsk hF hrest
    · obtain ⟨tl, e, rfl⟩ := (List.eq_nil_or_concat rest).resolve_left hnil
      rw [List.concat_eq_append, ← List.append_assoc] at hsplit
      rw [List.concat_eq_append] at hrest
      obtain ⟨rfl, he⟩ := List.append_inj' hsplit rfl
      rw [List.singleton_inj] at he
      subst he
      obtain ⟨d, hq⟩ := handled_data os s.server.st
        fun f (hf : f ∈ bs) => hd f (List.mem_append_left _ hf)
      rw [hq] at hst
      subst hst
      exact inv_silent hi hi.server rfl rfl hF hrest (.uploading hc hs hp h2 ht hf hA hk hn hst' hsk
        fun f hf => hd f (List.mem_append_right _ hf))

/-! ## Deliveries to the client -/

/-- What a server sends for a call raises in no handler of the client. -/
theorem plain_shape {server : FTPProtocol φ} {p : Pending} {A : List Frame} (h : Shape server p A)
    {f : Frame} (hf : f ∈ A) : Plain f := by
  have hready : Plain readyFrame := plain_response _ (by omega)
  cases h with
  | one h =>
    obtain rfl | ⟨code, message, hc, -, rfl⟩ := h
    · cases hf
    · rw [List.mem_singleton.mp hf]
      exact plain_response message hc
  | file content _ hend =>
    obtain hf | hf := List.mem_append.mp hf
    · exact plain_fileFrames hf
    · exact plain_fileEnd hend hf
  | ready | unsent =>
    rw [List.mem_singleton.mp hf]
    exact hready
  | stored _ _ hc =>
    obtain rfl | hf := List.mem_cons.mp hf
    · exact hready
    · rw [List.mem_singleton.mp hf]
      exact plain_response _ hc

theorem sets_sets (f : Future) (xs ys : List Outcome) : (f.sets xs).sets ys = f.sets (xs ++ ys) :=
  (List.foldl_append ..).symm

theorem inv_toClient {os : Os φ} {s : St φ} (hi : Inv s) {n : Nat} (hclean : Timely os s n) :
    Inv { s with
      server := ⟨{ s.server.st with out := s.server.st.out.drop n }, s.server.buf⟩
      client := (onData decoder (dispatch os) s.client (s.server.st.out.take n)).1 } := by
  obtain ⟨hcl, hsv, hb, hr, F, G, hF, hG, hp⟩ := hi
  obtain ⟨bs, rest, hsplit, htaken, hst, hrest⟩ := delivered os n hF
  unfold Timely at hclean
  simp only [← htaken] at hclean
  generalize (onData decoder (dispatch os) s.client (s.server.st.out.take n)).1 = r at hst hrest
  obtain ⟨q, buf⟩ := r
  simp only at hst hrest
  cases hp with
  | idle hc ht hn =>
    obtain ⟨rfl, rfl⟩ := List.append_eq_nil_iff.mp hsplit.symm
    obtain rfl : q = s.client.st := hst
    exact ⟨hcl, hsv, hb, hr, [], [], hrest, hG, .idle hc ht hn⟩
  | asked hc h2 hs ht hf hk hn =>
    obtain ⟨rfl, rfl⟩ := List.append_eq_nil_iff.mp hsplit.symm
    obtain rfl : q = s.client.st := hst
    exact ⟨hcl, hsv, hb, hr, [], _, hrest, hG, .asked hc h2 hs ht hf hk hn⟩
  | queued hc h2 hs ht hf hk hn =>
    obtain ⟨rfl, rfl⟩ := List.append_eq_nil_iff.mp hsplit.symm
    obtain rfl : q = s.client.st := hst
    exact ⟨hcl, hsv, hb, hr, [], [], hrest, hG, .queued hc h2 hs ht hf hk hn⟩
  | uploading hc hs hp h2 ht hf hA hk hn hst' hsk hd =>
    obtain ⟨rfl, rfl⟩ := List.append_eq_nil_iff.mp hsplit.symm
    obtain rfl : q = s.client.st := hst
    exact ⟨hcl, hsv, hb, hr, [], _, hrest, hG, .uploading hc hs hp h2 ht hf hA hk hn hst' hsk hd⟩
  | @answering p pre _ earlier now d hc hs ht hA hk hn hS he hrep hl hf hd =>
    subst hsplit
    have hplain : ∀ f ∈ bs, Plain f := fun f hf => plain_shape hS (by simp [hf])
    rw [handled_plain hplain hcl] at hst
    subst hst
    -- what the pass says comes behind what is waiting
    have hlen : (now ++ replies bs).length ≤ 1 := by
      cases now with
      | nil =>
        rw [if_pos (show s.client.st.future = .pending from hf)] at hclean
        exact hclean
      | cons o os =>
        have hnil : os = [] := List.length_eq_zero_iff.mp (by simpa using hl)
        subst hnil
        have hdone : s.client.st.future = .done o := hf
        rw [if_neg (by rw [hdone]; nofun)] at hclean
        rw [hclean]
        exact hl
    refine ⟨hcl, hsv, hb, hr, rest, [], hrest, hG, ?_⟩
    rw [← List.append_assoc] at hA hS
    refine .answering (p := p) (d := d) hc hs ht hA hk
      hn (hS.of_stor rfl rfl) he ?_ hlen ?_ ?_
    · rw [replies_append, hrep, List.append_assoc]
    · rw [← sets_sets, ← hf]
      rfl
    · rw [List.foldl_append, ← hd]
      rfl

/-! ## Every clean run -/

theorem inv_init (cfg : Cfg φ) : Inv (init cfg) :=
  ⟨rfl, rfl, nofun, nofun, [], [], .nil _, .nil _, .idle rfl rfl rfl⟩

theorem inv_step {os : Os φ} {s t : St φ} {l : Lbl} (hclean : Clean os s l)
    (h : step os s l = some t) (hi : Inv s) : Inv t := by
  cases l with
  | call c =>
    simp only [step] at h
    split at h
    · rename_i hc
      cases h
      exact inv_call hi hc hclean
    · cases h
  | resume =>
    simp only [step] at h
    split at h
    · rename_i hc hf
      cases h
      exact inv_proceed hi hc hf
    · rename_i hc hf
      cases h
      exact inv_raised hi hc hf
    · cases h
  | timeout => exact hclean.elim
  | serve =>
    simp only [step] at h
    split at h
    · rename_i ht
      cases h
      exact inv_serve hi ht hclean
    · cases h
  | toServer n =>
    cases h
    exact inv_toServer hi n
  | toClient n =>
    cases h
    exact inv_toClient hi hclean

theorem inv_reachable {cfg : Cfg φ} {s : St φ}
    (h : ((lts cfg).restrict (Clean cfg.os)).Reachable s) : Inv s := by
  have hI : ((lts cfg).restrict (Clean cfg.os)).Inductive Inv :=
    ⟨fun s hs => by rw [show s = init cfg from hs]; exact inv_init cfg,
      fun _ _ _ hi hs => inv_step hs.1 hs.2 hi⟩
  exact hI.reachable s h

/-- A call that is stuck has no final response. -/
theorem unanswered_of_stuck {s : St φ} (hi : Inv s) {p : Pending} (h : Stuck s p) :
    Unanswered s.server.st.answered p.command := by
  obtain ⟨-, -, -, -, F, G, hF, hG, hp⟩ := hi
  rw [h.toClient] at hF
  rw [h.toServer] at hG
  obtain ⟨hF0, -⟩ := hF.of_more decoder.look_nil
  obtain ⟨hG0, -⟩ := hG.of_more decoder.look_nil
  cases hp with
  | idle hc => rw [h.current] at hc; cases hc
  | asked => cases hG0
  | queued _ _ _ ht => rw [h.tasks] at ht; cases ht
  | uploading => simp at hG0
  | @answering p' pre _ earlier now d hc hs ht hA hk hn hS he hrep hl hf hd =>
    rw [h.current] at hc
    cases hc
    subst hF0
    rw [List.append_nil] at hA hS
    have hnow : now = [] := by
      cases now with
      | nil => rfl
      | cons o os =>
        have hnil : os = [] := List.length_eq_zero_iff.mp (by simpa using hl)
        subst hnil
        rw [h.future] at hf
        cases hf
    rw [hnow, List.append_nil] at hrep
    refine ⟨pre, hA, ?_⟩
    cases hS with
    | one hone h2 =>
      obtain rfl | ⟨code, message, hcode, -, rfl⟩ := hone
      · exact nofun
      · rw [replies_response message hcode] at hrep
        cases he with
        | first => cases hrep
        | second m h => rw [h2] at h; cases h
    | file content _ hend =>
      obtain ⟨x, -, hx, -⟩ := speaks_file content hend
      rw [hx] at hrep
      cases he <;> cases hrep
    | ready _ h2 =>
      rw [replies_response _ (by omega)] at hrep
      cases he with
      | first => cases hrep
      | second m h => rw [h2] at h; cases h
    | @stored _ _ _ code message _ _ hcode _ =>
      have htwo : replies [readyFrame, response code message] =
          replies [readyFrame] ++ replies [response code message] := replies_append [readyFrame] _
      rw [htwo, replies_response _ (by omega), replies_response _ hcode] at hrep
      cases he <;> cases hrep
    | unsent =>
      intro f hf
      exact ⟨_, List.mem_singleton.mp hf⟩

/-- **Headline.** In every run whose steps are clean each call that has ended
has ended with the final response to its own command, a download of a whole
file with a 226 and its content, and a call that waits with nothing under way
has no final response. -/
theorem paired {cfg : Cfg φ} {s : St φ} (h : ((lts cfg).restrict (Clean cfg.os)).Reachable s) :
    (∀ e ∈ s.ended, Right s.server.st.answered e) ∧
      ∀ p, Stuck s p → Unanswered s.server.st.answered p.command :=
  ⟨(inv_reachable h).right, fun _ hp => unanswered_of_stuck (inv_reachable h) hp⟩

/-! ## Runs that are clean and runs that are not -/

/-- A system where every path is a directory and a file of one byte. -/
def oneByteOs : Os Unit where
  isdir _ _ := true
  isfile _ _ := true
  listing _ _ := .ok (encode "[]")
  read _ _ := ([7], none)
  write _ _ _ := ((), none)
  makedirs _ _ := .fileExists
  rmdir _ _ := ((), none)
  remove _ _ := ((), none)
  getsize _ _ := .ok 1
  upperNonAscii c := [c]

def slash : L4.ServedPaths.Root := ⟨['/'], by decide, by decide⟩

def oneByte : Cfg Unit := ⟨oneByteOs, slash, (), slash, ()⟩

instance (os : Os φ) (s : St φ) (n : Nat) : Decidable (Timely os s n) :=
  inferInstanceAs (Decidable (if s.client.st.future = .pending then
    (replies (taken decoder (dispatch os) s.client (s.server.st.out.take n))).length ≤ 1
    else replies (taken decoder (dispatch os) s.client (s.server.st.out.take n)) = []))

/-- `Clean`, checked. -/
def check (os : Os φ) (s : St φ) : Lbl → Bool
  | .call (.send ..) | .call (.upload _ none _) | .call (.upload _ (some (_, none)) _)
  | .call (.download _ none) | .resume | .toServer _ => true
  | .call _ | .timeout => false
  | .serve =>
    match s.current with
    | some ⟨.send cmd args, _, _⟩ => !opens os s.server.st (os.upper cmd) args
    | _ => true
  | .toClient n => decide (Timely os s n)

theorem clean_of_check (os : Os φ) (s : St φ) (l : Lbl) (h : check os s l = true) :
    Clean os s l := by
  cases l with
  | call c =>
    cases c with
    | send => trivial
    | upload lp lf path =>
      rintro content e rfl
      cases h
    | download path e =>
      cases e with
      | none => rfl
      | some => cases h
  | resume | toServer => trivial
  | timeout => cases h
  | serve =>
    rintro ⟨call, second, command⟩ cmd args hc rfl
    simp only [check, hc] at h
    simpa using h
  | toClient n =>
    have ht : Timely os s n := of_decide_eq_true h
    exact ht

/-- A download whose 150 is taken before its 226 arrives. -/
def calmRun : List Lbl :=
  [.call (.download "f" none), .toServer 100, .serve, .toClient 30, .resume, .toClient 100, .resume]

theorem exec_calmRun :
    (LTS.exec (LTS.checked (check oneByteOs) (step oneByteOs)) (init oneByte) calmRun).isSome ∧
      (LTS.after (LTS.checked (check oneByteOs) (step oneByteOs)) (init oneByte) calmRun).ended.map
        Ended.written = [some [7]] := by
  decide +kernel

theorem paired_download :
    ∃ s, ((lts oneByte).restrict (Clean oneByteOs)).Reachable s ∧
      s.ended.map Ended.written = [some [7]] ∧ ∀ e ∈ s.ended, Right s.server.st.answered e := by
  obtain ⟨h, hw⟩ := exec_calmRun
  have hr : ((lts oneByte).restrict (Clean oneByteOs)).Reachable _ :=
    LTS.restrict_reachable_of_exec rfl (clean_of_check oneByteOs) (LTS.exec_after h)
  exact ⟨_, hr, hw, (paired hr).1⟩

/-- A `LIST` by `send_command`, then a `PWD` while the rest of the listing
arrives. -/
def listThenPwd : List Lbl :=
  [.call (.send "LIST" ""), .toServer 100, .serve, .toClient 30, .resume, .call (.send "PWD" ""),
    .toServer 100, .serve, .toClient 100, .resume]

/-- A download whose 150 and 226 are decoded in one pass. -/
def onePass : List Lbl :=
  [.call (.download "f" none), .toServer 100, .serve, .toClient 100, .resume]

theorem exec_listThenPwd :
    (LTS.exec (step oneByteOs) (init oneByte) listThenPwd).isSome ∧
      let s := LTS.after (step oneByteOs) (init oneByte) listThenPwd
      s.ended.map Ended.outcome = [.returned ⟨150, "Opening data connection"⟩,
        .returned ⟨226, "Transfer complete"⟩] ∧
      s.server.st.answered.map List.getLast? = [some (response 226 "Transfer complete"),
        some (response 257 "\"/\" is current directory")] := by
  decide +kernel

theorem exec_onePass :
    (LTS.exec (step oneByteOs) (init oneByte) onePass).isSome ∧
      let s := LTS.after (step oneByteOs) (init oneByte) onePass
      s.current = some ⟨.download "f" none, true, 0⟩ ∧ s.client.st.future = .pending ∧
      s.client.buf ++ s.server.st.out = [] ∧ s.server.buf ++ s.client.st.out = [] ∧
      s.server.st.tasks = [] ∧ s.server.st.answered = [wholeFile [7]] := by
  decide +kernel

/-- The `LIST` returns its 150, the `PWD` the 226 of the `LIST` and not its own
257; and a download waits although the whole file has come. -/
theorem unpaired_list :
    (∃ s, (lts oneByte).Reachable s ∧
      s.ended.map Ended.outcome = [.returned ⟨150, "Opening data connection"⟩,
        .returned ⟨226, "Transfer complete"⟩] ∧
      s.server.st.answered.map List.getLast? = [some (response 226 "Transfer complete"),
        some (response 257 "\"/\" is current directory")]) ∧
    ∃ s, (lts oneByte).Reachable s ∧ Stuck s ⟨.download "f" none, true, 0⟩ ∧
      s.server.st.answered = [wholeFile [7]] := by
  obtain ⟨h1, ho, ha⟩ := exec_listThenPwd
  obtain ⟨h2, hc, hf, hC, hS, ht, hw⟩ := exec_onePass
  exact ⟨⟨_, LTS.reachable_of_exec rfl (LTS.exec_after h1), ho, ha⟩,
    ⟨_, LTS.reachable_of_exec rfl (LTS.exec_after h2), ⟨hc, hf, hC, hS, ht⟩, hw⟩⟩

end Wormhole.L5.FtpSession
