import Wormhole.Core.Dict
import Wormhole.Core.Search
import Wormhole.L1Encoding.JsonLines

/-!
# HTTP through the wormhole

`WormholeHTTPClient` and `HTTPProxyHandler` of `src/wh/http/client.py`. A request goes out
as a line of JSON, the body and a marker; the proxy collects what comes in until the
marker is in it, takes the request apart and issues it. The response comes back as a line
of JSON and the content, and ends with the connection. The HTTP library that makes the
actual request is not modelled: a request is issued with the arguments it is called with,
and answered by any response.

* `issued_faithful_iff`: a request is issued as it was sent, once, if and only if the
  marker first stands behind the whole body.
* `response_roundTrip`: what the client makes of a response is the response.
-/
namespace Wormhole.L4.HttpProxy
open Wormhole.L1 Wormhole.L1.JsonText Wormhole.Search

/-! ## The client's request -/

/-- What `request` is called with; a `bytes` object has fewer than `2 ^ 63` bytes. -/
structure Request where
  method : String
  url : String
  headers : Dict String String
  body : Bytes
  body_lt : body.length < 2 ^ 63

/-- A header map as a JSON object. -/
def headersJson (headers : Dict String String) : Json :=
  .obj (headers.entries.map fun e => (e.1, .str e.2))

/-- mirrors src/wh/http/client.py:85-91 -/
def requestData (r : Request) : Json :=
  .obj [("type", .str "http_request"), ("method", .str r.method), ("url", .str r.url),
    ("headers", headersJson r.headers), ("body_length", .int r.body.length)]

/-- `b"\n---END---\n"` -/
def marker : Bytes := [10, 45, 45, 45, 69, 78, 68, 45, 45, 45, 10]

variable (repr : PyFloat → Text)

/-- What the client writes for a request, one after another.
mirrors src/wh/http/client.py:171-180 -/
def sendRequest (r : Request) : List Bytes :=
  [line repr (requestData r) ++ [10]] ++ (if r.body = [] then [] else [r.body]) ++ [marker]

/-! ## The proxy -/

/-- What `client.request` of the HTTP library is called with. -/
structure Issued where
  method : Json
  url : Json
  headers : Json
  content : Option Bytes

/-- `_buffer` after a chunk, and what `_handle_request` is started with.
mirrors src/wh/http/client.py:247-256 -/
def dataReceived (buffer data : Bytes) : Bytes × Option Bytes := collect marker buffer data

/-- A request taken apart at the first newline.
mirrors src/wh/http/client.py:301-307 -/
def splitLine (data : Bytes) : Bytes × Bytes :=
  match data.dropInfix? [10] with
  | none => (data, [])
  | some (metadataLine, body) => (metadataLine, body)

/-- The arguments of the request; `none` where an exception leads to the error response.
mirrors src/wh/http/client.py:309-320 -/
def readRequest (metadataLine body : Bytes) : Option Issued :=
  match loadsLine metadataLine with
  | some (.obj fields) =>
    match fields.find? (fun f => f.1 = "method"), fields.find? (fun f => f.1 = "url") with
    | some method, some url =>
      some ⟨method.2, url.2, Fields.get fields "headers" (.obj []),
        if body = [] then none else some body⟩
    | _, _ => none
  | _ => none

/-- `_handle_request` up to the request.
mirrors src/wh/http/client.py:292-320 -/
def handleRequest (data : Bytes) : Option Issued :=
  let data :=
    match data.dropInfix? marker with
    | none => data
    | some (front, _) => front
  readRequest (splitLine data).1 (splitLine data).2

/-- The requests issued for a stream that comes in chunks. -/
def issued (chunks : List Bytes) : List Issued :=
  (collected marker [] chunks).filterMap handleRequest

/-- The request has the method, URL, headers and body that were asked for. -/
structure Faithful (r : Request) (i : Issued) : Prop where
  method : i.method = .str r.method
  url : i.url = .str r.url
  headers : i.headers = headersJson r.headers
  body : i.content.getD [] = r.body

/-- One request is issued, and it is the one that was sent. -/
def IssuedFaithfully (r : Request) (chunks : List Bytes) : Prop :=
  ∃ i, issued chunks = [i] ∧ Faithful r i

/-! ## Lines -/

theorem plainFields_headers (es : List (String × String)) :
    PlainFields Printed (es.map fun e => (e.1, Json.str e.2)) := by
  induction es with
  | nil => rw [List.map_nil, PlainFields]; trivial
  | cons e es ih =>
    rw [List.map_cons, PlainFields, Plain]
    exact ⟨trivial, ih⟩

theorem plain_headers (headers : Dict String String) : Plain Printed (headersJson headers) := by
  rw [headersJson, Plain, List.map_map]
  exact ⟨headers.nodup, plainFields_headers headers.entries⟩

theorem plain_requestData (r : Request) : Plain Printed (requestData r) := by
  simp only [requestData, Plain, PlainFields, and_true, true_and]
  exact ⟨by simp, plain_headers r.headers, printed_of_lt r.body_lt⟩

/-- The metadata line as it stands in the stream. -/
def metadata (r : Request) : Bytes := line repr (requestData r)

theorem newline_notMem_metadata (r : Request) : 10 ∉ metadata repr r :=
  newline_notMem_line repr (plain_requestData r)

/-- The metadata is read back, whatever the body is. -/
theorem readRequest_metadata (r : Request) (body : Bytes) :
    ∃ i, readRequest (metadata repr r) body = some i ∧ i.method = .str r.method ∧
      i.url = .str r.url ∧ i.headers = headersJson r.headers ∧ i.content.getD [] = body := by
  refine ⟨⟨.str r.method, .str r.url, headersJson r.headers, if body = [] then none else some body⟩,
    ?_, rfl, rfl, rfl, ?_⟩
  · rw [readRequest, metadata, loads_line repr (plain_requestData r)]
    rfl
  · split
    · rename_i h
      exact h.symm
    · rfl

/-! ## Where the marker stands -/

/-- The stream behind the metadata. -/
def rest (r : Request) : Bytes := 10 :: (r.body ++ marker)

theorem flatten_sendRequest (r : Request) :
    (sendRequest repr r).flatten = metadata repr r ++ rest r := by
  unfold sendRequest rest metadata
  split
  · rename_i h
    simp [h]
  · simp

/-- **The body is safe.** With the newline before it, the marker does not stand anywhere
before the one behind the body, nor across the two. -/
def Unmarked (body : Bytes) : Prop := ¬ marker <:+: 10 :: (body ++ marker.dropLast)

/-- The marker begins with a newline, so it does not begin in the metadata. -/
theorem split_stream {r : Request} {p s : Bytes}
    (h : metadata repr r ++ rest r = p ++ marker ++ s) :
    ∃ p', p = metadata repr r ++ p' ∧ rest r = p' ++ marker ++ s := by
  have hle : (metadata repr r).length ≤ p.length := by
    by_contra hlt
    have hget := congrArg (fun l => l[p.length]?) h
    simp only [List.append_assoc, List.getElem?_append_left (Nat.lt_of_not_le hlt),
      List.getElem?_append_right (Nat.le_refl _), Nat.sub_self, marker, List.cons_append,
      List.getElem?_cons_zero] at hget
    exact newline_notMem_metadata repr r (List.mem_of_getElem? hget)
  rw [List.append_assoc] at h
  have hp : p <+: metadata repr r ++ rest r := ⟨marker ++ s, h.symm⟩
  obtain ⟨p', hp'⟩ := List.prefix_of_prefix_length_le (List.prefix_append _ (rest r)) hp hle
  rw [← hp', List.append_assoc, List.append_cancel_left_eq] at h
  exact ⟨p', hp'.symm, by rw [h, List.append_assoc]⟩

theorem length_rest (r : Request) : (rest r).length = r.body.length + 12 := by
  simp [rest, marker]

/-- An occurrence that is not the last one begins at the newline or in the body. -/
theorem unmarked_iff (r : Request) :
    Unmarked r.body ↔ ∀ p s, rest r = p ++ marker ++ s → r.body.length + 1 ≤ p.length := by
  have hrest : rest r = (10 :: (r.body ++ marker.dropLast)) ++ [10] := by simp [rest, marker]
  constructor
  · intro hu p s h
    by_contra hlt
    -- it ends before the last byte
    have hp : p ++ marker <+: rest r := ⟨s, h.symm⟩
    have hall : 10 :: (r.body ++ marker.dropLast) <+: rest r := ⟨[10], hrest.symm⟩
    have hpre : p ++ marker <+: 10 :: (r.body ++ marker.dropLast) := by
      apply List.prefix_of_prefix_length_le hp hall
      simp only [List.length_append, List.length_cons, marker, List.length_dropLast,
        List.length_nil]
      omega
    exact hu ((List.suffix_append p marker).isInfix.trans hpre.isInfix)
  · rintro h ⟨p, s, hps⟩
    have hle := h p (s ++ [10]) (by rw [hrest, ← hps, List.append_assoc])
    have hlen := congrArg List.length hps
    simp only [List.length_append, List.length_cons, marker, List.length_dropLast,
      List.length_nil] at hlen
    omega

/-- The line and the body, of what stands before the marker. -/
theorem splitLine_front {r : Request} {p q : Bytes} (h : rest r = p ++ q) :
    splitLine (metadata repr r ++ p) = (metadata repr r, p.drop 1) := by
  have hn := newline_notMem_metadata repr r
  unfold splitLine
  cases p with
  | nil =>
    have hnone : ¬ [10] <:+: metadata repr r :=
      fun hi => hn (hi.subset (List.mem_singleton_self 10))
    rw [List.append_nil, dropInfix?_eq_none.mpr hnone]
    rfl
  | cons b p =>
    rw [rest, List.cons_append] at h
    rw [← (List.cons.inj h).1, dropInfix?_singleton hn]
    rfl

/-- What is handed on is read up to its first marker. -/
theorem handleRequest_front {r : Request} {l p s q : Bytes}
    (hl : l.dropInfix? marker = some (metadata repr r ++ p, s)) (h : rest r = p ++ q) :
    ∃ i, handleRequest l = some i ∧ i.method = .str r.method ∧ i.url = .str r.url ∧
      i.headers = headersJson r.headers ∧ i.content.getD [] = p.drop 1 := by
  obtain ⟨i, hi, hfields⟩ := readRequest_metadata repr r (p.drop 1)
  refine ⟨i, ?_, hfields⟩
  rw [handleRequest, hl]
  simp only [splitLine_front repr h]
  exact hi

/-! ## Requests -/

/-- The last marker is the only one. -/
theorem dropInfix?_unmarked {r : Request} (hu : Unmarked r.body) :
    (metadata repr r ++ rest r).dropInfix? marker =
      some (metadata repr r ++ 10 :: r.body, []) := by
  refine dropInfix?_eq_some.mpr ⟨by simp [rest], fun p s h => ?_⟩
  obtain ⟨p', hp, hp'⟩ := split_stream repr h
  have hle := (unmarked_iff r).mp hu p' s hp'
  rw [hp]
  simp only [List.length_append, List.length_cons]
  omega

/-- Only the whole stream holds a marker. -/
theorem eq_of_marked {r : Request} (hu : Unmarked r.body) {q : Bytes}
    (hq : q <+: metadata repr r ++ rest r) (hm : marker <:+: q) :
    q = metadata repr r ++ rest r := by
  obtain ⟨m, hm'⟩ := hq
  obtain ⟨p, s, hps⟩ := hm
  obtain ⟨p', hp, hrest⟩ := split_stream (s := s ++ m) repr (by
    rw [← hm', ← hps, List.append_assoc])
  have hle := (unmarked_iff r).mp hu p' _ hrest
  have hlen := congrArg List.length hrest
  rw [length_rest] at hlen
  simp only [List.length_append, marker, List.length_cons, List.length_nil] at hlen
  have hnil : m = [] := List.length_eq_zero_iff.mp (by omega)
  rw [← hm', hnil, List.append_nil]

/-- The body begins somewhere else where the marker stands earlier. -/
theorem body_ne {r : Request} {p s : Bytes} (h : rest r = p ++ marker ++ s)
    (hlt : ¬ r.body.length + 1 ≤ p.length) : p.drop 1 ≠ r.body := by
  intro he
  cases p with
  | nil =>
    rw [List.drop_nil] at he
    rw [rest, ← he] at h
    simp [marker] at h
  | cons b p =>
    rw [List.drop_succ_cons, List.drop_zero] at he
    rw [he, List.length_cons] at hlt
    omega

theorem marker_isInfix (r : Request) : marker <:+: metadata repr r ++ rest r :=
  ⟨metadata repr r ++ 10 :: r.body, [], by simp [rest]⟩

theorem faithful_of_unmarked {r : Request} {chunks : List Bytes} (hu : Unmarked r.body)
    (hc : chunks.flatten = metadata repr r ++ rest r) : IssuedFaithfully r chunks := by
  have hwhole := collected_whole (by decide) (marker_isInfix repr r)
    (fun q hq hm => eq_of_marked repr hu hq hm) hc
  obtain ⟨i, hi, h1, h2, h3, h4⟩ := handleRequest_front repr (p := 10 :: r.body) (q := marker)
    (dropInfix?_unmarked repr hu) (by simp [rest])
  refine ⟨i, ?_, h1, h2, h3, h4⟩
  rw [issued, hwhole, List.filterMap_cons, hi]
  rfl

theorem unmarked_of_faithful {r : Request} {chunks : List Bytes}
    (hc : chunks.flatten = metadata repr r ++ rest r) (h : IssuedFaithfully r chunks) :
    Unmarked r.body := by
  obtain ⟨i, hi, hf⟩ := h
  have hmark := marker_isInfix repr r
  have hnil : ¬ marker <:+: [] := by decide
  have hin : marker <:+: [] ++ chunks.flatten := by
    rw [List.nil_append, hc]
    exact hmark
  obtain ⟨l, more, hl, hml, happ⟩ := collected_first hnil hin
  rw [List.nil_append, hc] at happ
  -- what is handed on first is cut where the stream is
  obtain ⟨p, s, hd⟩ := exists_dropInfix? hmark
  obtain ⟨hstream, hmin⟩ := dropInfix?_eq_some.mp hd
  obtain ⟨p', hp, hp'⟩ := split_stream repr hstream
  rw [hp] at hd hmin
  rw [← happ] at hd
  obtain ⟨s', hs'⟩ := dropInfix?_of_append hml hd
  obtain ⟨j, hj, -, -, -, hbody⟩ := handleRequest_front repr hs'
    (hp'.trans (List.append_assoc _ _ _))
  have hji : j = i := by
    rw [issued, hl, List.filterMap_cons, hj] at hi
    exact (List.cons.inj hi).1
  have hdrop : p'.drop 1 = r.body := by rw [← hbody, hji, hf.body]
  have hle : r.body.length + 1 ≤ p'.length := by
    by_contra hlt
    exact body_ne hp' hlt hdrop
  refine (unmarked_iff r).mpr fun q t hq => ?_
  have hfirst := hmin (metadata repr r ++ q) t (by simp only [hq, List.append_assoc])
  simp only [List.length_append] at hfirst
  omega

/-- **When a request arrives unchanged.** However the stream is cut into chunks, the proxy
issues exactly one request and it is the one that was sent, if and only if the body is
safe. -/
theorem issued_faithful_iff (r : Request) (chunks : List Bytes)
    (hc : chunks.flatten = (sendRequest repr r).flatten) :
    IssuedFaithfully r chunks ↔ Unmarked r.body := by
  rw [flatten_sendRequest] at hc
  exact ⟨unmarked_of_faithful repr hc, fun hu => faithful_of_unmarked repr hu hc⟩

instance (body : Bytes) : Decidable (Unmarked body) := instDecidableNot

/-- A request with this body. -/
def post (body : Bytes) (h : body.length < 2 ^ 63) : Request :=
  ⟨"POST", "http://localhost/notes", .empty, body, h⟩

/-- `END` -/
def plainBody : Request := post [69, 78, 68] (by decide)

theorem plainBody_issued :
    IssuedFaithfully plainBody (sendRequest (fun _ => []) plainBody) :=
  (issued_faithful_iff (fun _ => []) plainBody _ rfl).mpr (by decide)

/-- `a`, the marker and `b` -/
def markedBody : Request := post ([97] ++ marker ++ [98]) (by decide)

/-- **The body is cut off** at the marker it holds. -/
theorem marked_body_cut : ¬ ∀ (r : Request) (chunks : List Bytes),
    chunks.flatten = (sendRequest (fun _ => []) r).flatten → IssuedFaithfully r chunks := by
  intro h
  have hcut := unmarked_of_faithful (fun _ => []) (r := markedBody)
    (flatten_sendRequest _ _) (h markedBody _ rfl)
  exact absurd hcut (by decide)

/-! ## Responses -/

/-- What the HTTP library returns. The status is an integer that `str` prints. -/
structure Response where
  statusCode : Int
  printed : Printed (.int statusCode)
  reason : String
  headers : Dict String String
  content : Bytes

/-- mirrors src/wh/http/client.py:323-327 -/
def responseData (r : Response) : Fields :=
  [("status_code", .int r.statusCode), ("reason", .str r.reason),
    ("headers", headersJson r.headers)]

/-- mirrors src/wh/http/client.py:329-331 -/
def sendResponse (r : Response) : List Bytes :=
  [line repr (.obj (responseData r)) ++ [10], r.content]

/-- The dict that `_parse_response` returns, with its `body` apart. -/
structure ResponseDict where
  metadata : Fields
  body : Bytes

/-- `metadata["body"] = body`; on anything but a dict it raises. -/
def withBody (metadata : Option Json) (body : Bytes) : Option ResponseDict :=
  match metadata with
  | some (.obj fields) => some ⟨fields, body⟩
  | _ => none

/-- mirrors src/wh/http/client.py:192-214 -/
def parseResponse (data : Bytes) : Option ResponseDict :=
  match data.dropInfix? [10] with
  | none => withBody (loadsLine data) []
  | some (metadataLine, body) => withBody (loadsLine metadataLine) body

/-- mirrors src/wh/http/client.py:129-130 -/
def onData (responseParts : List Bytes) (data : Bytes) : List Bytes := responseParts ++ [data]

/-- What `_send_request` returns when the connection is over.
mirrors src/wh/http/client.py:182-190 -/
def receiveResponse (chunks : List Bytes) : Option ResponseDict :=
  parseResponse (chunks.foldl onData []).flatten

theorem joined_chunks (chunks : List Bytes) :
    (chunks.foldl onData []).flatten = chunks.flatten := by
  have hparts : ∀ parts, chunks.foldl onData parts = parts ++ chunks := by
    induction chunks with
    | nil => exact fun parts => (List.append_nil parts).symm
    | cons chunk chunks ih =>
      intro parts
      rw [List.foldl_cons, ih, onData, List.append_assoc, List.singleton_append]
  rw [hparts, List.nil_append]

theorem plain_responseData (r : Response) : Plain Printed (.obj (responseData r)) := by
  simp only [responseData, Plain, PlainFields, and_true, true_and]
  exact ⟨by simp, r.printed, plain_headers r.headers⟩

/-- **Responses round-trip.** However the stream is cut into chunks, the client gets the
status, the reason and the headers that were sent, and the content as the body. -/
theorem response_roundTrip (r : Response) (chunks : List Bytes)
    (hc : chunks.flatten = (sendResponse repr r).flatten) :
    receiveResponse chunks = some ⟨responseData r, r.content⟩ := by
  have hplain := plain_responseData r
  have hstream : (sendResponse repr r).flatten =
      line repr (.obj (responseData r)) ++ 10 :: r.content := by
    simp [sendResponse]
  rw [receiveResponse, joined_chunks, hc, hstream, parseResponse,
    dropInfix?_singleton (newline_notMem_line repr hplain)]
  show withBody (loadsLine (line repr (.obj (responseData r)))) r.content = _
  rw [loads_line repr hplain]
  rfl

/-- `404 Not "here"` with two lines of content. -/
def notHere : Response where
  statusCode := 404
  printed := printed_of_lt (n := 404) (by decide)
  reason := "Not \"here\""
  headers := .empty
  content := [10, 111, 104, 10]

theorem notHere_roundTrip :
    receiveResponse (sendResponse (fun _ => []) notHere) =
      some ⟨responseData notHere, [10, 111, 104, 10]⟩ :=
  response_roundTrip (fun _ => []) notHere _ rfl

end Wormhole.L4.HttpProxy
