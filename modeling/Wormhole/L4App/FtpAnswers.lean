import Wormhole.L4App.Ftp

/-!
# What an FTP server answers

`single_command`: a command is answered with one response that is not a 150, or
with nothing, unless it opens (`opens`). `answer_cmdRetr`, `cmdStor_opens`: what
follows, and what is left behind, when a `RETR` or a `STOR` does.
-/
namespace Wormhole.L4.Ftp
open Wormhole.L1 Wormhole.PosixPath

variable {φ : Type}

/-! ## What a server answers -/

/-- A command that is answered with a preliminary 150: a `LIST` of a directory,
a `RETR` of a file, a `STOR` inside the root. -/
def opens (os : Os φ) (p : FTPProtocol φ) (cmd args : String) : Bool :=
  if cmd = "LIST" then
    match if args = "" then .ok p.cwd else resolvePath p args with
    | .ok target => os.isdir p.files target && (os.listing p.files target).isOk
    | .error _ => false
  else if cmd = "RETR" then
    match resolvePath p args with
    | .ok target => os.isfile p.files target
    | .error _ => false
  else if cmd = "STOR" then (resolvePath p args).isOk
  else false

/-- The parts of the object that no command touches. -/
structure SameWire (p q : FTPProtocol φ) : Prop where
  isServer : q.isServer = p.isServer
  future : q.future = p.future
  tasks : q.tasks = p.tasks
  out : q.out = p.out
  answered : q.answered = p.answered

theorem SameWire.refl (p : FTPProtocol φ) : SameWire p p := ⟨rfl, rfl, rfl, rfl, rfl⟩

/-- One response that is not a 150, or an exception. -/
structure Single (p : FTPProtocol φ) (r : Result φ) : Prop where
  wire : SameWire p r.ftp
  one : (r.sends = [] ∧ ∃ e, r.raised = some e) ∨
    ∃ code message, code < 65536 ∧ code ≠ 150 ∧ r = ⟨r.ftp, [response code message], none⟩

theorem single_respond {p q : FTPProtocol φ} (hq : SameWire p q) {code : Nat} (message : String)
    (hc : code < 65536) (h : code ≠ 150) : Single p (respond q code message) :=
  ⟨hq, .inr ⟨code, message, hc, h, rfl⟩⟩

theorem single_raised (p : FTPProtocol φ) (e : String) : Single p ⟨p, [], some e⟩ :=
  ⟨.refl p, .inl ⟨rfl, e, rfl⟩⟩

theorem single_withPath {p : FTPProtocol φ} {path : String} {k : Str → Result φ}
    (h : ∀ target, resolvePath p path = .ok target → Single p (k target)) :
    Single p (withPath p path k) := by
  unfold withPath
  split
  · exact h _ ‹_›
  · exact single_raised p _

theorem single_respondOr {p q : FTPProtocol φ} (hq : SameWire p q) (e : Option String)
    {code : Nat} (message : String) (hc : code < 65536) (h : code ≠ 150) :
    Single p (respondOr q e code message) := by
  unfold respondOr
  split
  · exact single_respond hq message hc h
  · exact single_respond hq _ (by omega) (by omega)

theorem single_ite {p : FTPProtocol φ} {c : Prop} [Decidable c] {r r' : Result φ}
    (h : c → Single p r) (h' : Single p r') : Single p (if c then r else r') := by
  split
  · exact h ‹_›
  · exact h'

theorem single_cmdCwd (os : Os φ) (p : FTPProtocol φ) (path : String) :
    Single p (cmdCwd os p path) := by
  have henter : ∀ target, Single p (if os.isdir p.files target then
      respond { p with cwd := target } 250 "Directory changed successfully"
      else respond p 550 ("Directory not found: " ++ path)) := by
    intro target
    have hcwd : SameWire p { p with cwd := target } := ⟨rfl, rfl, rfl, rfl, rfl⟩
    split
    · exact single_respond hcwd _ (by omega) (by omega)
    · exact single_respond (.refl p) _ (by omega) (by omega)
  unfold cmdCwd
  simp only
  split
  · exact henter _
  · exact single_withPath fun target _ => henter target

theorem single_cmdList {os : Os φ} {p : FTPProtocol φ} {path : String}
    (h : opens os p "LIST" path = false) : Single p (cmdList os p path) := by
  unfold opens at h
  rw [if_pos rfl] at h
  unfold cmdList
  simp only
  split at h
  · rename_i target ht
    have hnot : ∀ files, os.isdir p.files target = true →
        os.listing p.files target ≠ .ok files := by
      intro files hd hok
      rw [hd, hok] at h
      cases h
    split at ht
    · cases ht
      rw [if_pos ‹_›]
      refine single_ite (fun hd => ?_) (single_respond (.refl p) _ (by omega) (by omega))
      split
      · exact single_raised p _
      · rename_i hok
        exact absurd hok (hnot _ hd)
    · rw [if_neg ‹_›, withPath, ht]
      refine single_ite (fun hd => ?_) (single_respond (.refl p) _ (by omega) (by omega))
      split
      · exact single_raised p _
      · rename_i hok
        exact absurd hok (hnot _ hd)
  · rename_i ht
    split at ht
    · cases ht
    · rw [if_neg ‹_›, withPath, ht]
      exact single_raised p _

theorem single_cmdRetr {os : Os φ} {p : FTPProtocol φ} {path : String}
    (h : opens os p "RETR" path = false) : Single p (cmdRetr os p path) := by
  unfold opens at h
  refine single_withPath fun target ht => ?_
  rw [if_neg (by decide), if_pos rfl, ht] at h
  simp only at h
  rw [h]
  exact single_respond (.refl p) _ (by omega) (by omega)

theorem single_cmdStor (os : Os φ) {p : FTPProtocol φ} {path : String}
    (h : opens os p "STOR" path = false) : Single p (cmdStor p path) := by
  unfold opens at h
  refine single_withPath fun target ht => ?_
  rw [if_neg (by decide), if_neg (by decide), if_pos rfl, ht] at h
  cases h

theorem single_cmdMkd (os : Os φ) (p : FTPProtocol φ) (path : String) :
    Single p (cmdMkd os p path) := by
  refine single_withPath fun target _ => ?_
  have hfiles : ∀ files, SameWire p { p with files := files } :=
    fun _ => ⟨rfl, rfl, rfl, rfl, rfl⟩
  split
  · exact single_respond (hfiles _) _ (by omega) (by omega)
  · exact single_respond (.refl p) _ (by omega) (by omega)
  · exact single_respond (hfiles _) _ (by omega) (by omega)

theorem single_cmdRmd (os : Os φ) (p : FTPProtocol φ) (path : String) :
    Single p (cmdRmd os p path) := by
  refine single_withPath fun target _ => ?_
  have hfiles : ∀ files, SameWire p { p with files := files } :=
    fun _ => ⟨rfl, rfl, rfl, rfl, rfl⟩
  split
  · exact single_respondOr (hfiles _) _ _ (by omega) (by omega)
  · exact single_respond (.refl p) _ (by omega) (by omega)

theorem single_cmdDele (os : Os φ) (p : FTPProtocol φ) (path : String) :
    Single p (cmdDele os p path) := by
  refine single_withPath fun target _ => ?_
  have hfiles : ∀ files, SameWire p { p with files := files } :=
    fun _ => ⟨rfl, rfl, rfl, rfl, rfl⟩
  split
  · exact single_respondOr (hfiles _) _ _ (by omega) (by omega)
  · exact single_respond (.refl p) _ (by omega) (by omega)

theorem single_cmdSize (os : Os φ) (p : FTPProtocol φ) (path : String) :
    Single p (cmdSize os p path) := by
  refine single_withPath fun target _ => ?_
  split
  · split
    · exact single_respond (.refl p) _ (by omega) (by omega)
    · exact single_raised p _
  · exact single_respond (.refl p) _ (by omega) (by omega)

/-- **A command that does not open is answered once.** -/
theorem single_command {os : Os φ} {p : FTPProtocol φ} {cmd args : String}
    (h : opens os p cmd args = false) : Single p (command os p cmd args) := by
  have hquit : SameWire p { p with done := true } := ⟨rfl, rfl, rfl, rfl, rfl⟩
  unfold command
  refine single_ite (fun _ => single_respond (.refl p) _ (by omega) (by omega)) ?_
  refine single_ite (fun _ => single_cmdCwd os p args) ?_
  refine single_ite (fun hc => single_cmdList (hc ▸ h)) ?_
  refine single_ite (fun hc => single_cmdRetr (hc ▸ h)) ?_
  refine single_ite (fun hc => single_cmdStor os (hc ▸ h)) ?_
  refine single_ite (fun _ => single_cmdMkd os p args) ?_
  refine single_ite (fun _ => single_cmdRmd os p args) ?_
  refine single_ite (fun _ => single_cmdDele os p args) ?_
  refine single_ite (fun _ => single_cmdSize os p args) ?_
  refine single_ite (fun _ => single_respond hquit _ (by omega) (by omega)) ?_
  exact single_respond (.refl p) _ (by omega) (by omega)

/-! ## The frames of an answer -/

theorem fits_structError : (response 550 structError).fits = true := by decide

theorem fits_of_mem_answer {r : Result φ} {f : Frame} (h : f ∈ answer r) : f.fits = true := by
  unfold answer at h
  split at h
  · rename_i hall
    obtain h | h := List.mem_append.mp h
    · exact List.all_eq_true.mp hall f h
    · split at h
      · cases h
      · exact (List.mem_filter.mp h).2
  · obtain h | h := List.mem_append.mp h
    · exact List.all_eq_true.mp List.all_takeWhile f h
    · rw [List.mem_singleton.mp h]
      exact fits_structError

theorem unpack_pack2 {code : Nat} (h : code < 65536) : unpack (beBytes 2 code) = code := by
  rw [unpack_beBytes]
  exact Nat.mod_eq_of_lt h

/-- A response says what it was made of. -/
theorem reply_response {code : Nat} (message : String) (h : code < 65536) :
    reply (response code message) = some (.returned ⟨code, message⟩) := by
  have hlen : (beBytes 2 code).length = 2 := length_beBytes 2 code
  unfold reply response
  rw [if_pos rfl, List.drop_left' hlen, List.take_left' hlen, decode_encode, unpack_pack2 h]
  rfl

theorem answer_single {p : FTPProtocol φ} {r : Result φ} (h : Single p r) :
    answer r = [] ∨
      ∃ code message, code < 65536 ∧ code ≠ 150 ∧ answer r = [response code message] := by
  obtain ⟨-, ⟨hs, e, he⟩ | ⟨code, message, hc, hne, hr⟩⟩ := h
  · unfold answer
    rw [hs, he]
    simp only [List.all_nil, if_true, List.nil_append, List.filter_cons, List.filter_nil]
    split
    · exact .inr ⟨550, e, by omega, by omega, rfl⟩
    · exact .inl rfl
  · right
    rw [hr]
    unfold answer
    simp only [List.all_cons, List.all_nil, Bool.and_true, List.append_nil]
    split
    · exact ⟨code, message, hc, hne, rfl⟩
    · rename_i hf
      rw [List.takeWhile_cons_of_neg hf]
      exact ⟨550, structError, by omega, by omega, rfl⟩

theorem fits_fileFrames {content : Bytes} {f : Frame} (h : f ∈ fileFrames content) :
    f.fits = true := by
  unfold fileFrames at h
  simp only [List.mem_cons, List.mem_map] at h
  obtain rfl | rfl | ⟨c, hc, rfl⟩ := h
  · decide
  · rfl
  · have := length_of_mem_reads hc
    exact decide_eq_true (by simp only; omega)

/-- What ends the frames of a file: the end and a 226, or an error. -/
inductive FileEnd : List Frame → Prop
  | whole : FileEnd [⟨MSG_DATA_END, []⟩, response 226 "Transfer complete"]
  | error (e : String) : FileEnd [⟨MSG_ERROR, encode e⟩]
  | tooLong : FileEnd [response 550 structError]

/-- **A `RETR` that opens** is answered with a 150, the file's blocks and what
ends them. -/
theorem answer_cmdRetr {os : Os φ} {p : FTPProtocol φ} {path : String}
    (h : opens os p "RETR" path = true) :
    (cmdRetr os p path).ftp = p ∧ ∃ target content tail, resolvePath p path = .ok target ∧
      (os.read p.files target).1 = content ∧ FileEnd tail ∧
      answer (cmdRetr os p path) = fileFrames content ++ tail := by
  unfold opens at h
  rw [if_neg (by decide), if_pos rfl] at h
  split at h
  · rename_i target ht
    unfold cmdRetr withPath
    rw [ht]
    simp only [h, if_true]
    cases hread : os.read p.files target with
    | mk content e =>
      cases e with
      | none =>
        refine ⟨rfl, target, content, _, rfl, by rw [hread], .whole, ?_⟩
        unfold answer wholeFile
        rw [if_pos, List.append_nil]
        rw [List.all_append, Bool.and_eq_true, List.all_eq_true]
        exact ⟨fun f hf => fits_fileFrames hf, by decide⟩
      | some e =>
        refine ⟨rfl, target, content, ?_⟩
        unfold answer
        simp only [List.all_append, Bool.and_eq_true, List.all_eq_true, List.append_nil,
          List.mem_singleton, forall_eq]
        split
        · exact ⟨_, trivial, by rw [hread], .error e, rfl⟩
        · rename_i hf
          refine ⟨_, trivial, by rw [hread], .tooLong, ?_⟩
          rw [List.takeWhile_append_of_pos fun f hf => fits_fileFrames hf,
            List.takeWhile_cons_of_neg,
            List.append_nil]
          exact fun he => hf ⟨fun f hf => fits_fileFrames hf, he⟩
  · cases h

/-- **A `STOR` that opens** is answered with a 150, and the object has a target. -/
theorem cmdStor_opens {os : Os φ} {p : FTPProtocol φ} {path : String}
    (h : opens os p "STOR" path = true) :
    ∃ target, cmdStor p path = respond { p with
        receivingData := true
        dataBuffer := []
        storTarget := some target
        storCommand := p.answered.length } 150 "Ready to receive data" := by
  unfold opens at h
  rw [if_neg (by decide), if_neg (by decide), if_pos rfl] at h
  unfold cmdStor withPath
  cases ht : resolvePath p path with
  | ok target => exact ⟨target, rfl⟩
  | error e => rw [ht] at h; cases h

theorem answer_respond_stor (p : FTPProtocol φ) :
    answer (respond p 150 "Ready to receive data") = [response 150 "Ready to receive data"] := by
  have hf : (response 150 "Ready to receive data").fits = true := by decide
  simp [answer, respond, hf]

/-! ## The command a client sends -/

/-- The payload of a command; the name's length is one byte. -/
def commandPayload (cmd args : String) : Bytes :=
  UInt8.ofNat (encode cmd).length :: encode cmd ++ encode args

theorem handleCommand_payload (os : Os φ) (p : FTPProtocol φ) {cmd : String} (args : String)
    (h : (encode cmd).length < 256) :
    handleCommand os p (commandPayload cmd args) = command os p (os.upper cmd) args := by
  have hn : (UInt8.ofNat (encode cmd).length).toNat = (encode cmd).length := by
    rw [UInt8.toNat_ofNat']
    exact Nat.mod_eq_of_lt h
  simp only [handleCommand, commandPayload, List.cons_append, hn]
  rw [if_neg (by simp only [List.length_append]; omega), List.take_left, List.drop_left,
    decode_encode, decode_encode]

/-! ## What a client takes from an answer -/

/-- What a frame says to the future. -/
def said (f : Frame) : Option Outcome :=
  if f.msgType = MSG_RESPONSE ∨ f.msgType = MSG_ERROR then reply f else none

/-- The responses and errors among some frames. -/
def replies (fs : List Frame) : List Outcome := fs.filterMap said

/-- A data frame, on the buffer and the flag of a receiver. -/
def dataStep (d : Bytes × Bool) (f : Frame) : Bytes × Bool :=
  if f.msgType = MSG_DATA_START then ([], true)
  else if f.msgType = MSG_DATA then if d.2 then (d.1 ++ f.payload, d.2) else d
  else if f.msgType = MSG_DATA_END then (d.1, false)
  else d

/-- A frame that a server sends and no handler of a client raises on. -/
structure Plain (f : Frame) : Prop where
  no_command : f.msgType ≠ MSG_COMMAND
  long : f.msgType = MSG_RESPONSE → 2 ≤ f.payload.length
  decodes : f.msgType = MSG_RESPONSE ∨ f.msgType = MSG_ERROR → (reply f).isSome = true

/-- A client with another future and other data. -/
def FTPProtocol.took (p : FTPProtocol φ) (future : Future) (d : Bytes × Bool) : FTPProtocol φ :=
  { p with future := future, dataBuffer := d.1, receivingData := d.2 }

theorem handleDataComplete_client {os : Os φ} {p : FTPProtocol φ} (h : p.isServer = false) :
    handleDataComplete os p = (p, none) := by
  unfold handleDataComplete
  split
  · rename_i hs _
    rw [h] at hs
    cases hs
  · rfl

/-- What a client does with a server's frame. -/
theorem dispatch_plain {os : Os φ} {p : FTPProtocol φ} {f : Frame} (hf : Plain f)
    (hs : p.isServer = false) :
    dispatch os p f =
      (p.took ((said f).elim p.future p.future.set) (dataStep (p.dataBuffer, p.receivingData) f),
        none) := by
  obtain ⟨hc, hl, hd⟩ := hf
  unfold dispatch said dataStep handleReply
  rw [if_neg hc]
  by_cases h1 : f.msgType = MSG_RESPONSE
  · have hlen := hl h1
    obtain ⟨o, ho⟩ := Option.isSome_iff_exists.mp (hd (.inl h1))
    rw [if_pos h1, if_neg (by omega), ho, if_pos (.inl h1), h1]
    rfl
  by_cases h5 : f.msgType = MSG_ERROR
  · obtain ⟨o, ho⟩ := Option.isSome_iff_exists.mp (hd (.inr h5))
    rw [if_neg h1, ho, h5]
    rfl
  have hno : ¬ (f.msgType = MSG_RESPONSE ∨ f.msgType = MSG_ERROR) := by simp [h1, h5]
  rw [if_neg h1, if_neg hno]
  by_cases h2 : f.msgType = MSG_DATA_START
  · rw [if_pos h2, if_pos h2]
    rfl
  by_cases h3 : f.msgType = MSG_DATA
  · rw [if_neg h2, if_neg h2, if_pos h3, if_pos h3]
    simp only
    split <;> rfl
  by_cases h4 : f.msgType = MSG_DATA_END
  · rw [if_neg h2, if_neg h2, if_neg h3, if_neg h3, if_pos h4, if_pos h4]
    exact handleDataComplete_client hs
  · rw [if_neg h2, if_neg h2, if_neg h3, if_neg h3, if_neg h4, if_neg h4, if_neg h5]
    rfl

/-- A future after some outcomes, the first of which it takes. -/
def Future.sets (f : Future) (os : List Outcome) : Future := os.foldl Future.set f

/-- What a client does with some of a server's frames. -/
theorem handled_plain {os : Os φ} {p : FTPProtocol φ} {fs : List Frame} (hf : ∀ f ∈ fs, Plain f)
    (hs : p.isServer = false) :
    Decoder.handled (dispatch os) p fs =
      p.took (p.future.sets (replies fs)) (fs.foldl dataStep (p.dataBuffer, p.receivingData)) := by
  induction fs generalizing p with
  | nil => rfl
  | cons f fs ih =>
    rw [Decoder.handled, dispatch_plain (hf f (List.mem_cons_self ..)) hs]
    have hs' : ∀ future d, (p.took future d).isServer = false := fun _ _ => hs
    refine (ih (fun g hg => hf g (List.mem_cons_of_mem _ hg)) (hs' _ _)).trans ?_
    unfold replies
    cases ho : said f with
    | none => rw [List.filterMap_cons_none ho]; rfl
    | some o => rw [List.filterMap_cons_some ho]; rfl

theorem plain_response {code : Nat} (message : String) (h : code < 65536) :
    Plain (response code message) where
  no_command := show MSG_RESPONSE ≠ MSG_COMMAND by decide
  long _ := by simp [response]
  decodes _ := by rw [reply_response message h]; rfl

theorem plain_data {f : Frame} (h1 : f.msgType ≠ MSG_COMMAND) (h2 : f.msgType ≠ MSG_RESPONSE)
    (h3 : f.msgType ≠ MSG_ERROR) : Plain f :=
  ⟨h1, fun h => absurd h h2, fun h => absurd h (by simp [h2, h3])⟩

theorem reply_error (e : String) : ∃ x, reply ⟨MSG_ERROR, encode e⟩ = some (.raised x) := by
  have hne : MSG_ERROR ≠ MSG_RESPONSE := by decide
  unfold reply
  rw [if_neg hne]
  split
  · exact ⟨_, rfl⟩
  · rw [decode_encode]; exact ⟨e, rfl⟩

theorem plain_error (e : String) : Plain ⟨MSG_ERROR, encode e⟩ where
  no_command := show MSG_ERROR ≠ MSG_COMMAND by decide
  long h := absurd h (show MSG_ERROR ≠ MSG_RESPONSE by decide)
  decodes _ := by
    obtain ⟨x, hx⟩ := reply_error e
    rw [hx]; rfl

theorem said_response {code : Nat} (message : String) (h : code < 65536) :
    said (response code message) = some (.returned ⟨code, message⟩) := by
  unfold said
  rw [if_pos (.inl rfl), reply_response message h]

theorem said_error (e : String) : ∃ x, said ⟨MSG_ERROR, encode e⟩ = some (.raised x) := by
  unfold said
  rw [if_pos (.inr rfl)]
  exact reply_error e

theorem plain_fileFrames {content : Bytes} {f : Frame} (h : f ∈ fileFrames content) : Plain f := by
  simp only [fileFrames, List.mem_cons, List.mem_map] at h
  obtain rfl | rfl | ⟨c, -, rfl⟩ := h
  · exact plain_response _ (by omega)
  · exact plain_data (by decide) (by decide) (by decide)
  · exact plain_data (by simp only; decide) (by simp only; decide) (by simp only; decide)

theorem plain_fileEnd {tail : List Frame} (h : FileEnd tail) {f : Frame} (hf : f ∈ tail) :
    Plain f := by
  cases h with
  | whole =>
    simp only [List.mem_cons, List.not_mem_nil, or_false] at hf
    obtain rfl | rfl := hf
    · exact plain_data (by decide) (by decide) (by decide)
    · exact plain_response _ (by omega)
  | error e => rw [List.mem_singleton.mp hf]; exact plain_error e
  | tooLong => rw [List.mem_singleton.mp hf]; exact plain_response _ (by omega)

theorem replies_data (cs : List Bytes) : replies (cs.map (⟨MSG_DATA, ·⟩)) = [] := by
  unfold replies
  rw [List.filterMap_map]
  exact List.filterMap_eq_nil_iff.mpr fun c _ => rfl

theorem replies_append (fs gs : List Frame) : replies (fs ++ gs) = replies fs ++ replies gs :=
  List.filterMap_append

theorem replies_response {code : Nat} (message : String) (h : code < 65536) :
    replies [response code message] = [.returned ⟨code, message⟩] := by
  unfold replies
  rw [List.filterMap_cons_some (said_response message h)]
  rfl

/-- Only the first of the frames of a file speaks, and says 150. -/
theorem replies_fileFrames (content : Bytes) :
    replies (fileFrames content) = [.returned ⟨150, "Opening data connection"⟩] := by
  unfold fileFrames
  rw [← List.singleton_append, replies_append, replies_response _ (by omega)]
  exact congrArg _ (replies_data _)

/-- The last frame speaks, and it is the only one. -/
theorem replies_fileEnd {tail : List Frame} (h : FileEnd tail) :
    ∃ f o, tail.getLast? = some f ∧ said f = some o ∧ replies tail = [o] ∧
      ∀ m, o ≠ .returned ⟨150, m⟩ := by
  cases h with
  | whole =>
    refine ⟨_, _, rfl, said_response _ (by omega), ?_, by simp⟩
    rw [← List.singleton_append, replies_append, replies_response _ (by omega)]
    rfl
  | error e =>
    obtain ⟨x, hx⟩ := said_error e
    refine ⟨_, _, rfl, hx, ?_, nofun⟩
    unfold replies
    rw [List.filterMap_cons_some hx]
    rfl
  | tooLong =>
    exact ⟨_, _, rfl, said_response _ (by omega), replies_response _ (by omega), by simp⟩

theorem dataStep_data (cs : List Bytes) (buf : Bytes) :
    (cs.map (⟨MSG_DATA, ·⟩)).foldl dataStep (buf, true) = (buf ++ cs.flatten, true) := by
  induction cs generalizing buf with
  | nil => simp
  | cons c cs ih =>
    rw [List.map_cons, List.foldl_cons, List.flatten_cons, ← List.append_assoc]
    exact ih _

/-- **A whole file leaves its content** in the buffer. -/
theorem dataStep_wholeFile (content : Bytes) (d : Bytes × Bool) :
    (wholeFile content).foldl dataStep d = (content, false) := by
  have hfile : (fileFrames content).foldl dataStep d = (content, true) := by
    have hdata := dataStep_data (reads 8192 content.length content) []
    rw [List.nil_append, flatten_reads (by omega) (Nat.le_refl _)] at hdata
    exact hdata
  unfold wholeFile
  rw [List.foldl_append, hfile]
  rfl

end Wormhole.L4.Ftp
