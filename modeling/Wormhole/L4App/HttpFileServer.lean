import Wormhole.L1Encoding.BencodeRead
import Wormhole.L1Encoding.JsonLines
import Wormhole.L4App.ServedPaths

/-!
# Files served over HTTP

`HTTPFileServer` of `src/wh/http/server.py`: a message in, a message out. Which file a
path names is in `ServedPaths`; here is what is sent for it. The file is read as text, so
its newlines are translated, its length is counted in characters, and the response is a
line of JSON. The table of content types and the texts of Python's own exceptions are
arbitrary.

* `body_exact_iff`: the body is the file if and only if the file has no carriage return.
* `contentLength_exact_iff`: where it is, the length is right if and only if the file is
  ASCII.
* `served_exact_iff`: both, on the message that is sent.
-/
namespace Wormhole.L4.HttpFileServer
open Wormhole.L1 Wormhole.L1.JsonText Wormhole.PosixPath Wormhole.L4.ServedPaths
open Wormhole.L1.Bencode (charByte_toNat utf8EncodeChar_ascii)

/-! ## Reading a file -/

/-- What text mode makes of line ends. -/
def universalNewlines : Text → Text
  | [] => []
  | '\r' :: '\n' :: cs => '\n' :: universalNewlines cs
  | '\r' :: cs => '\n' :: universalNewlines cs
  | c :: cs => c :: universalNewlines cs

/-- `file_path.read_text(encoding='utf-8')`; `none` is `UnicodeDecodeError`. -/
def readText (bs : Bytes) : Option String :=
  (decode bs).map fun s => String.ofList (universalNewlines s.toList)

/-! ## The server -/

/-- What `json.loads` raises. -/
inductive LoadsError
  | decode (message : String)
  | other (message : String)

structure Server where
  root : Root
  fs : Http.FileSystem
  contents : Str → Bytes
  guessType : Str → Option String
  loadsError : String → LoadsError
  decodeError : Bytes → String

def response (statusCode : Nat) (headers : Fields) (body : String) : Json :=
  .obj [("status_code", .int statusCode), ("headers", .obj headers), ("body", .str body)]

/-- mirrors src/wh/http/server.py:173-181 -/
def sendError (statusCode : Nat) (reason message : String) : Json :=
  response statusCode [("Content-Type", .str "text/html")]
    ("<html><body><h1>" ++ toString statusCode ++ " " ++ reason ++ "</h1><p>" ++ message ++
      "</p></body></html>")

/-- mirrors src/wh/http/server.py:146-160 -/
def fileResponse (srv : Server) (filePath : Str) (content : String) : Json :=
  response 200
    [("Content-Type", .str ((srv.guessType filePath).getD "text/html")),
      ("Content-Length", .str (toString content.length))]
    content

/-- mirrors src/wh/http/server.py:95-166 -/
def handleHttpRequest (srv : Server) (request : Fields) : Json :=
  match Fields.get request "path" (.str "/") with
  | .str path =>
    match Http.handleHttpRequest srv.root srv.fs path.toList with
    | .error status reason message => sendError status reason message
    | .file filePath =>
      match readText (srv.contents filePath) with
      | none => sendError 500 "Internal Server Error" (srv.decodeError (srv.contents filePath))
      | some content => fileResponse srv filePath content
  | x => sendError 500 "Internal Server Error"
      ("'" ++ x.typeName ++ "' object has no attribute 'split'")

/-- The answer to one message.
mirrors src/wh/http/server.py:63-93 -/
def answer (srv : Server) (data : Bytes) : Json :=
  match decode data with
  | none => sendError 500 "Internal Server Error" (srv.decodeError data)
  | some text =>
    match pyReader.loads text with
    | none =>
      match srv.loadsError text with
      | .decode message => sendError 400 "Bad Request" ("Invalid JSON: " ++ message)
      | .other message => sendError 500 "Internal Server Error" message
    | some (.obj request) =>
      match Fields.get request "type" with
      | .str "http_request" => handleHttpRequest srv request
      | _ => sendError 400 "Bad Request" "Unknown request type"
    | some x => sendError 500 "Internal Server Error"
        ("'" ++ x.typeName ++ "' object has no attribute 'get'")

variable (repr : PyFloat → Text)

/-- The message that is sent for a message.
mirrors src/wh/http/server.py:168-171 -/
def reply (srv : Server) (data : Bytes) : Bytes := line repr (answer srv data)

/-- The message asks for a path. -/
structure Asks (data : Bytes) (path : String) (request : Fields) : Prop where
  loads : loadsLine data = some (.obj request)
  type : Fields.get request "type" = .str "http_request"
  path : Fields.get request "path" (.str "/") = .str path

/-- The message has these bytes as its body, and says how many they are. -/
def Exact (bytes message : Bytes) : Prop :=
  ∃ response headers body, loadsLine message = some (.obj response) ∧
    Fields.get response "headers" = .obj headers ∧ Fields.get response "body" = .str body ∧
    encode body = bytes ∧ Fields.get headers "Content-Length" = .str (toString bytes.length)

/-- ASCII without carriage returns. -/
def Unchanged (bytes : Bytes) : Prop := ∀ b ∈ bytes, b.toNat < 128 ∧ b ≠ 13

instance (bytes : Bytes) : Decidable (Unchanged bytes) :=
  inferInstanceAs (Decidable (∀ b ∈ bytes, b.toNat < 128 ∧ b ≠ 13))

/-! ## Line ends -/

theorem return_notMem_universalNewlines (cs : Text) : '\r' ∉ universalNewlines cs := by
  fun_induction universalNewlines cs with
  | case1 => exact List.not_mem_nil
  | case2 cs ih => exact List.not_mem_cons_of_ne_of_not_mem (by decide) ih
  | case3 cs _ ih => exact List.not_mem_cons_of_ne_of_not_mem (by decide) ih
  | case4 c cs _ hc ih => exact List.not_mem_cons_of_ne_of_not_mem (fun h => hc h.symm) ih

theorem universalNewlines_eq_self {cs : Text} : universalNewlines cs = cs ↔ '\r' ∉ cs := by
  constructor
  · intro h
    rw [← h]
    exact return_notMem_universalNewlines cs
  · intro h
    fun_induction universalNewlines cs with
    | case1 => rfl
    | case2 cs ih => exact absurd List.mem_cons_self h
    | case3 cs _ ih => exact absurd List.mem_cons_self h
    | case4 c cs _ hc ih => rw [ih fun hm => h (List.mem_cons_of_mem c hm)]

/-! ## Characters and bytes -/

theorem encode_toList (s : String) : encode s = s.toList.flatMap String.utf8EncodeChar := by
  rw [← encode_ofList, String.ofList_toList]

theorem utf8Size_eq_one_iff {c : Char} : c.utf8Size = 1 ↔ c.toNat < 128 := by
  rw [Char.utf8Size_eq_one_iff, UInt32.le_iff_toNat_le]
  have hval : c.val.toNat = c.toNat := rfl
  have h127 : (0x7f : UInt32).toNat = 127 := rfl
  omega

theorem ascii_chars_iff (s : String) :
    (∀ b ∈ encode s, b.toNat < 128) ↔ ∀ c ∈ s.toList, c.toNat < 128 := by
  rw [encode_toList]
  constructor
  · intro h c hc
    obtain ⟨b, hb⟩ := List.exists_mem_of_ne_nil _ (String.utf8EncodeChar_ne_nil (c := c))
    have hlt := h b (List.mem_flatMap.mpr ⟨c, hc, hb⟩)
    rw [toNat_of_mem_utf8EncodeChar hlt hb]
    exact hlt
  · intro h b hb
    obtain ⟨c, hc, hb⟩ := List.mem_flatMap.mp hb
    rw [utf8EncodeChar_ascii (h c hc), List.mem_singleton] at hb
    rw [hb, charByte_toNat (h c hc)]
    exact h c hc

theorem return_mem_iff (s : String) : 13 ∈ encode s ↔ '\r' ∈ s.toList := by
  rw [encode_toList, List.mem_flatMap]
  constructor
  · intro ⟨c, hc, hb⟩
    have hreturn : c = '\r' := Char.toNat_inj.mp (toNat_of_mem_utf8EncodeChar (by decide) hb)
    rwa [hreturn] at hc
  · intro h
    exact ⟨'\r', h, by decide⟩

theorem length_le_encode (cs : Text) : cs.length ≤ (cs.flatMap String.utf8EncodeChar).length := by
  induction cs with
  | nil => rfl
  | cons c cs ih =>
    have hpos := c.utf8Size_pos
    rw [List.flatMap_cons, List.length_append, String.length_utf8EncodeChar, List.length_cons]
    omega

/-- As many bytes as characters: one for each. -/
theorem length_encode_iff (cs : Text) :
    (cs.flatMap String.utf8EncodeChar).length = cs.length ↔ ∀ c ∈ cs, c.toNat < 128 := by
  induction cs with
  | nil => simp
  | cons c cs ih =>
    have hpos := c.utf8Size_pos
    have hle := length_le_encode cs
    rw [List.flatMap_cons, List.length_append, String.length_utf8EncodeChar, List.length_cons,
      List.forall_mem_cons, ← ih, ← utf8Size_eq_one_iff]
    omega

/-! ## The response -/

theorem encode_readText {bs : Bytes} {s : String} (h : decode bs = some s) :
    readText bs = some (String.ofList (universalNewlines s.toList)) := by
  rw [readText, h]
  rfl

/-- **When the body is the file**: it has no carriage return. -/
theorem body_exact_iff {bs : Bytes} {s body : String} (h : decode bs = some s)
    (hbody : readText bs = some body) : encode body = bs ↔ 13 ∉ bs := by
  rw [encode_readText h] at hbody
  rw [← Option.some.inj hbody, ← decode_eq_some.mp h, return_mem_iff,
    ← universalNewlines_eq_self]
  constructor
  · intro he
    rw [← String.toList_ofList (l := universalNewlines s.toList), encode_inj he]
  · intro hu
    rw [hu, String.ofList_toList]

/-- **When the length is right** too: the file is ASCII. -/
theorem contentLength_exact_iff (body : String) :
    toString body.length = toString (encode body).length ↔ ∀ b ∈ encode body, b.toNat < 128 := by
  rw [ascii_chars_iff, ← length_encode_iff, ← encode_toList, String.length_toList]
  exact ⟨fun h => (toString_inj h).symm, fun h => by rw [h]⟩

theorem unchanged_iff (bs : Bytes) : Unchanged bs ↔ (∀ b ∈ bs, b.toNat < 128) ∧ 13 ∉ bs := by
  constructor
  · intro h
    exact ⟨fun b hb => (h b hb).1, fun hm => (h 13 hm).2 rfl⟩
  · intro h b hb
    exact ⟨h.1 b hb, fun he => h.2 (he ▸ hb)⟩

theorem answer_asked {srv : Server} {data : Bytes} {path : String} {request : Fields}
    (h : Asks data path request) : answer srv data = handleHttpRequest srv request := by
  obtain ⟨text, htext, hloads⟩ := Option.bind_eq_some_iff.mp h.loads
  unfold answer
  rw [htext]
  simp only
  rw [hloads]
  simp only
  rw [h.type]
  rfl

theorem answer_file {srv : Server} {data : Bytes} {path body : String} {request : Fields}
    {filePath : Str} (h : Asks data path request)
    (hf : Http.handleHttpRequest srv.root srv.fs path.toList = .file filePath)
    (hbody : readText (srv.contents filePath) = some body) :
    answer srv data = fileResponse srv filePath body := by
  rw [answer_asked h, handleHttpRequest, h.path]
  simp only
  rw [hf]
  simp only
  rw [hbody]

theorem plain_fileResponse (srv : Server) (filePath : Str) (content : String) :
    Plain Printed (fileResponse srv filePath content) := by
  simp only [fileResponse, response, Plain, PlainFields, and_true]
  exact ⟨by simp, printed_of_lt (n := 200) (by decide), by simp⟩

/-- The message is exact when its body and its length are. -/
theorem exact_iff (srv : Server) (filePath : Str) (content : String) (bytes : Bytes) :
    Exact bytes (line repr (fileResponse srv filePath content)) ↔
      encode content = bytes ∧ toString content.length = toString bytes.length := by
  have hloads := loads_line repr (plain_fileResponse srv filePath content)
  constructor
  · intro ⟨fields, headers, body, hl, hh, hb, he, hc⟩
    cases hloads.symm.trans hl
    cases hh
    cases hb
    exact ⟨he, Json.str.inj hc⟩
  · intro ⟨he, hc⟩
    exact ⟨_, _, content, hloads, rfl, rfl, he, congrArg Json.str hc⟩

theorem reply_exact_iff {srv : Server} {data : Bytes} {path body : String} {request : Fields}
    {filePath : Str} (h : Asks data path request)
    (hf : Http.handleHttpRequest srv.root srv.fs path.toList = .file filePath)
    (hbody : readText (srv.contents filePath) = some body) :
    Exact (srv.contents filePath) (reply repr srv data) ↔
      encode body = srv.contents filePath ∧
        toString body.length = toString (srv.contents filePath).length := by
  rw [reply, answer_file h hf hbody, exact_iff]

/-- **When a served file arrives byte for byte.** The message sent for a request that leads
to a UTF-8 file has the file's bytes as its body and their number as its length, if and only
if the file is ASCII without carriage returns. -/
theorem served_exact_iff {srv : Server} {data : Bytes} {path s : String} {request : Fields}
    {filePath : Str} (h : Asks data path request)
    (hf : Http.handleHttpRequest srv.root srv.fs path.toList = .file filePath)
    (hs : decode (srv.contents filePath) = some s) :
    Exact (srv.contents filePath) (reply repr srv data) ↔ Unchanged (srv.contents filePath) := by
  have hbody := encode_readText hs
  rw [reply_exact_iff repr h hf hbody, body_exact_iff hs hbody, unchanged_iff]
  constructor
  · intro ⟨hr, hl⟩
    have he := (body_exact_iff hs hbody).mpr hr
    rw [← he, contentLength_exact_iff] at hl
    exact ⟨he ▸ hl, hr⟩
  · intro ⟨hascii, hr⟩
    have he := (body_exact_iff hs hbody).mpr hr
    rw [← he] at hascii
    exact ⟨hr, ((contentLength_exact_iff _).mpr hascii).trans (by rw [he])⟩

/-! ## Requests on fixed inputs -/

/-- A request for a path. -/
def get (path : String) : Fields :=
  [("type", .str "http_request"), ("method", .str "GET"), ("path", .str path)]

theorem asks_get (path : String) : Asks (line repr (.obj (get path))) path (get path) where
  loads := loads_line repr (by
    simp only [get, Plain, PlainFields, and_true]
    simp)
  type := rfl
  path := rfl

/-- `/srv/share` with one file. -/
def sharing (file : String) (bytes : Bytes) : Server where
  root := share
  fs := oneFile file
  contents := fun _ => bytes
  guessType := fun _ => some "text/plain"
  loadsError := .decode
  decodeError := fun _ => ""

/-- `hi` and a newline -/
theorem note_exact :
    Exact [104, 105, 10] (reply (fun _ => []) (sharing "/srv/share/note.txt" [104, 105, 10])
      (line (fun _ => []) (.obj (get "/note.txt?v=1")))) := by
  let srv := sharing "/srv/share/note.txt" [104, 105, 10]
  have hfile : Http.handleHttpRequest srv.root srv.fs "/note.txt?v=1".toList =
      .file "/srv/share/note.txt".toList := by decide +kernel
  have htext : decode (srv.contents "/srv/share/note.txt".toList) = some "hi\n" := by
    decide +kernel
  have hplain : Unchanged (srv.contents "/srv/share/note.txt".toList) := by decide +kernel
  exact (served_exact_iff (fun _ => []) (asks_get _ "/note.txt?v=1") hfile htext).mpr hplain

/-- **A file of one accented letter** is sent with a length of one. -/
theorem accented_file_short : ¬ ∀ (srv : Server) (data : Bytes) (path s : String)
    (request : Fields) (filePath : Str), Asks data path request →
    Http.handleHttpRequest srv.root srv.fs path.toList = .file filePath →
    decode (srv.contents filePath) = some s →
    Exact (srv.contents filePath) (reply (fun _ => []) srv data) := by
  intro h
  have hf : Http.handleHttpRequest share (oneFile "/srv/share/e.txt") "/e.txt".toList =
      .file "/srv/share/e.txt".toList := by decide +kernel
  have hexact := h (sharing "/srv/share/e.txt" [0xC3, 0xA9]) _ _ "é" _ _ (asks_get (fun _ => []) _)
    hf (decode_encode "é")
  have hlength := ((reply_exact_iff (fun _ => []) (asks_get (fun _ => []) _) hf
    (encode_readText (decode_encode "é"))).mp hexact).2
  exact absurd hlength (by decide)

end Wormhole.L4.HttpFileServer
