import Wormhole.Core.Framing
import Wormhole.Core.LTS
import Wormhole.L1Encoding.JsonLines

/-!
# Whose answer a DNS query returns

`DNSProtocol` of `src/wh/cli/dns.py`, as a client that makes one call of `query` after
another and as the peer that answers. A request has no identifier: a response goes to the
future that is there, whatever it answers. Frames are delivered at any time, and a call times
out at any time before its future has a result.

The peer runs `_handle_query` with its connection in `_protocol`, where the unit tests put
one. (`run_server` does not, and sends nothing: then every call times out.) What the resolver
finds is arbitrary, as are the texts that Python makes of types and exceptions. The
connection stays up.

* `fed_frames`: chunks only group the frames.
* `answers_belong_iff`: every call returns the timeout error or the response to its own name
  and type if and only if every response that comes while a call waits is in its turn.
-/
namespace Wormhole.L5.DnsAnswers
open Wormhole.L1 Wormhole.L1.JsonText Wormhole.Decoder

/-! ## Frames -/

def MSG_RESPONSE : UInt8 := 0x02

structure Frame where
  msgType : UInt8
  payload : Bytes
  deriving DecidableEq, Repr

/-- `struct.pack(">BI", ...)` and the data, which is shorter than 4 GiB. -/
def Frame.pack (f : Frame) : Bytes := (f.msgType :: beBytes 4 f.payload.length) ++ f.payload

/-- mirrors src/wh/cli/dns.py:102-112 -/
def decoder : Decoder UInt8 Frame Empty :=
  headed 5 five_pos (fun header => unpack header.tail)
    fun header payload => ⟨header.headD 0, payload⟩

theorem decoder_look {f : Frame} (hf : f.payload.length < 256 ^ 4) (tl : Bytes) :
    decoder.look (f.pack ++ tl) = .item f tl := by
  have hlen : unpack (beBytes 4 f.payload.length) = f.payload.length := by
    rw [unpack_beBytes, Nat.mod_eq_of_lt hf]
  have hheader : (f.msgType :: beBytes 4 f.payload.length).length = 5 := by simp
  exact headed_look hheader hlen tl

/-! ## The client -/

/-- `_response_future`. -/
inductive Future
  | pending
  | result (data : Json)
  | failed
  | cancelled

/-- mirrors src/wh/cli/dns.py:277-284 -/
def handleResponse (future : Option Future) (payload : Bytes) : Option Future :=
  match future with
  | some .pending =>
    match loadsLine payload with
    | some data => some (.result data)
    | none => some .failed
  | _ => future

/-- What the client does with a frame; it gets no queries.
mirrors src/wh/cli/dns.py:113-117 -/
def handleFrame (future : Option Future) (f : Frame) : Option Future × Option Empty :=
  (if f.msgType = MSG_RESPONSE then handleResponse future f.payload else future, none)

theorem calm_frames (future : Option Future) (frames : List Frame) :
    Calm handleFrame future frames := by
  induction frames generalizing future with
  | nil => trivial
  | cons f frames ih => exact ⟨rfl, ih _⟩

/-- **Chunks only group the frames**: the futures see the frames one after another. -/
theorem fed_frames (future : Option Future) {frames : List Frame} {chunks : List Bytes}
    (hf : ∀ f ∈ frames, f.payload.length < 256 ^ 4)
    (hc : chunks.flatten = (frames.map Frame.pack).flatten) :
    feed decoder handleFrame ⟨future, []⟩ chunks =
      ⟨handled handleFrame future frames, []⟩ := by
  apply feed_complete decoder.look_nil
  · rw [List.nil_append, hc, ← List.flatMap_def, ← List.append_nil (frames.flatMap Frame.pack)]
    exact Decodes.of_encoded (fun f hm tl => decoder_look (hf f hm) tl) []
  · exact decoder.look_nil
  · exact calm_frames future frames

structure Query where
  name : String
  qtype : String
  deriving DecidableEq, Repr

def queryData (q : Query) : Json := .obj [("name", .str q.name), ("type", .str q.qtype)]

/-- `{"error": "Query timed out"}` -/
def timedOut : Json := .obj [("error", .str "Query timed out")]

/-! ## The server -/

/-- What the resolver came to. -/
structure Found where
  values : List String
  error : String

/-- The types that are looked up. -/
def supported : List String := ["A", "AAAA", "PTR", "MX", "NS", "TXT", "CNAME", "SOA", "SRV"]

/-- Strings that are made elsewhere. -/
structure Config where
  upper : String → String
  format : Json → String
  loadsError : Bytes → String

def record (name qtype : Json) (value : String) : Json :=
  .obj [("name", name), ("type", qtype), ("ttl", .int 300), ("value", .str value)]

def responseData (name qtype : Json) (found : Found) : Json :=
  .obj [("query", name), ("query_type", qtype),
    ("answers", .arr (found.values.map (record name qtype))), ("authorities", .arr []),
    ("additionals", .arr []), ("error", .str found.error)]

/-- mirrors src/wh/cli/dns.py:136-249 -/
def lookup (cfg : Config) (qtype : Json) (found : Found) : Found :=
  match qtype with
  | .str t => if t ∈ supported then found else ⟨[], "Unsupported query type: " ++ t⟩
  | x => ⟨[], "Unsupported query type: " ++ cfg.format x⟩

/-- The response that is sent.
mirrors src/wh/cli/dns.py:119-275 -/
def handleQuery (cfg : Config) (found : Found) (payload : Bytes) : Json :=
  match loadsLine payload with
  | some (.obj fields) =>
    let name := Fields.get fields "name" (.str "")
    let qtype := Fields.get fields "type" (.str "A")
    responseData name qtype (lookup cfg qtype found)
  | some x => .obj [("error", .str ("'" ++ x.typeName ++ "' object has no attribute 'get'"))]
  | none => .obj [("error", .str (cfg.loadsError payload))]

/-! ## Runs -/

/-- What a call of `query` comes to. -/
inductive Outcome
  | returned (data : Json)
  | raised

/-- `toServer` and `toClient` are the frames under way. The rest are histories: `queries` has
the calls, `produced` each payload with the response to it, `delivered` is how many responses
have come, and `results` has each call that is over with its outcome. -/
structure St where
  call : Option Query := none
  future : Option Future := none
  toServer : List Bytes := []
  tasks : List Bytes := []
  toClient : List Bytes := []
  queries : List Query := []
  produced : List (Bytes × Json) := []
  delivered : Nat := 0
  results : List (Query × Outcome) := []

def init : St := {}

inductive Lbl
  | query (name qtype : String)
  | returns
  | timeout
  | deliverQuery
  | serve (found : Found)
  | deliverResponse

variable (repr : PyFloat → Text) (cfg : Config)

/-- `query` up to its `await`.
mirrors src/wh/cli/dns.py:292-301 -/
def startQuery (s : St) (q : Query) : St :=
  { s with
    call := some q
    future := some .pending
    toServer := s.toServer ++ [line repr (queryData q)]
    queries := s.queries ++ [q] }

/-- The call ends. -/
def endQuery (s : St) (q : Query) (future : Future) (o : Outcome) : St :=
  { s with call := none, future := some future, results := s.results ++ [(q, o)] }

def step (s : St) : Lbl → Option St
  | .query name qtype =>
    match s.call with
    | some _ => none
    | none => some (startQuery repr s ⟨name, cfg.upper qtype⟩)
  | .returns =>
    match s.call, s.future with
    | some q, some (.result data) => some (endQuery s q (.result data) (.returned data))
    | some q, some .failed => some (endQuery s q .failed .raised)
    | _, _ => none
  | .timeout =>
    match s.call, s.future with
    | some q, some .pending => some (endQuery s q .cancelled (.returned timedOut))
    | _, _ => none
  | .deliverQuery =>
    match s.toServer with
    | payload :: rest => some { s with toServer := rest, tasks := s.tasks ++ [payload] }
    | [] => none
  | .serve found =>
    match s.tasks with
    | payload :: rest =>
      let response := handleQuery cfg found payload
      some { s with
        tasks := rest
        toClient := s.toClient ++ [line repr response]
        produced := s.produced ++ [(payload, response)] }
    | [] => none
  | .deliverResponse =>
    match s.toClient with
    | payload :: rest =>
      some { s with
        toClient := rest
        future := handleResponse s.future payload
        delivered := s.delivered + 1 }
    | [] => none

def lts : LTS St Lbl := .ofStep (· = init) (step repr cfg)

/-- What the calls have come to, and what the call under way will come to if its future has
an outcome. -/
def outcomes (s : St) : List (Query × Outcome) :=
  s.results ++
    match s.call, s.future with
    | some q, some (.result data) => [(q, .returned data)]
    | some q, some .failed => [(q, .raised)]
    | _, _ => []

/-- The timeout error, or the response that the server produced for this name and type. -/
def Belongs (s : St) (r : Query × Outcome) : Prop :=
  r.2 = .returned timedOut ∨
    ∃ data, r.2 = .returned data ∧ (line repr (queryData r.1), data) ∈ s.produced

/-- **In turn.** When a response comes while a call waits, as many have come before it as there
were calls before one for the name and type that are waited for. -/
def InTurn (s : St) (l : Lbl) : Prop :=
  l = .deliverResponse → ∀ q, s.call = some q → s.future = some .pending →
    s.queries[s.delivered]? = some q

/-! ## Requests and responses -/

theorem loads_queryData (q : Query) :
    loadsLine (line repr (queryData q)) = some (queryData q) := by
  apply loads_line
  simp [queryData, Plain, PlainFields]

theorem line_queryData_inj {q q' : Query}
    (h : line repr (queryData q) = line repr (queryData q')) : q = q' := by
  have hloads := congrArg loadsLine h
  rw [loads_queryData, loads_queryData] at hloads
  cases q
  cases q'
  cases hloads
  rfl

theorem handleQuery_query (q : Query) (found : Found) :
    handleQuery cfg found (line repr (queryData q)) =
      responseData (.str q.name) (.str q.qtype) (lookup cfg (.str q.qtype) found) := by
  rw [handleQuery, loads_queryData]
  rfl

theorem plain_records (name qtype : String) (values : List String) :
    PlainItems Printed (values.map (record (.str name) (.str qtype))) := by
  induction values with
  | nil => rw [List.map_nil, PlainItems]; trivial
  | cons v values ih =>
    rw [List.map_cons, PlainItems]
    refine ⟨?_, ih⟩
    simp only [record, Plain, PlainFields, and_true, true_and]
    exact ⟨by simp, printed_of_lt (n := 300) (by decide)⟩

theorem loads_response (name qtype : String) (found : Found) :
    loadsLine (line repr (responseData (.str name) (.str qtype) found)) =
      some (responseData (.str name) (.str qtype) found) := by
  apply loads_line
  simp only [responseData, Plain, PlainFields, PlainItems, and_true, true_and]
  exact ⟨by simp, plain_records name qtype found.values⟩

/-- The response says that it is for this name and type. -/
def Names (data : Json) (q : Query) : Prop :=
  ∃ fields, data = .obj fields ∧ Fields.get fields "query" = .str q.name ∧
    Fields.get fields "query_type" = .str q.qtype

theorem names_response {name qtype : String} {found : Found} {q : Query} :
    Names (responseData (.str name) (.str qtype) found) q ↔ q = ⟨name, qtype⟩ := by
  constructor
  · intro ⟨fields, hf, hn, ht⟩
    cases hf
    cases q
    cases hn
    cases ht
    rfl
  · intro h
    rw [h]
    exact ⟨_, rfl, rfl, rfl⟩

theorem response_ne_timedOut (name qtype : Json) (found : Found) :
    responseData name qtype found ≠ timedOut := by
  simp [responseData, timedOut]

/-! ## What the steps keep -/

/-- The requests under way are those of the last calls, the responses under way are the last
produced, and what is returned is a response or the timeout error. -/
structure Inv (s : St) : Prop where
  asked : s.tasks ++ s.toServer =
    (s.queries.drop s.produced.length).map fun q => line repr (queryData q)
  served : s.produced.length ≤ s.queries.length
  produced : ∀ (i : Nat) e, s.produced[i]? = some e → ∃ (q : Query) (found : Found),
    s.queries[i]? = some q ∧
      e = (line repr (queryData q), responseData (.str q.name) (.str q.qtype) found)
  sent : s.toClient = (s.produced.drop s.delivered).map fun e => line repr e.2
  arrived : s.delivered ≤ s.produced.length
  known : ∀ r ∈ outcomes s, r.2 = .returned timedOut ∨ ∃ e ∈ s.produced, r.2 = .returned e.2

theorem inv_init : Inv repr init where
  asked := rfl
  served := Nat.le_refl 0
  produced := nofun
  sent := rfl
  arrived := Nat.le_refl 0
  known := nofun

/-- How a step changes the outcomes: not at all, by a timeout, or by a response that meets a
waiting query. -/
inductive Changes (s : St) (l : Lbl) (t : St) : Prop
  | same (hm : InTurn s l) (h : outcomes t = outcomes s)
  | timedOut (q : Query) (hm : InTurn s l)
    (h : outcomes t = outcomes s ++ [(q, .returned timedOut)])
  | answered (q : Query) (payload : Bytes) (rest : List Bytes) (hl : l = .deliverResponse)
    (hcall : s.call = some q) (hfuture : s.future = some .pending)
    (hhead : s.toClient = payload :: rest) (hprod : t.produced = s.produced)
    (h : ∀ data, loadsLine payload = some data →
      outcomes t = outcomes s ++ [(q, .returned data)])

theorem outcomes_of_none {s : St} (h : s.call = none) : outcomes s = s.results := by
  rw [outcomes, h, List.append_nil]

theorem outcomes_waiting {s : St} (h : s.future = some .pending) : outcomes s = s.results := by
  unfold outcomes
  rw [h]
  split <;> simp_all

theorem step_changes {s t : St} {l : Lbl} (h : step repr cfg s l = some t) : Changes s l t := by
  cases l with
  | query name qtype =>
    cases hcall : s.call with
    | some q => simp [step, hcall] at h
    | none =>
      simp only [step, hcall, Option.some.injEq] at h
      rw [← h]
      refine .same nofun ?_
      rw [outcomes_waiting rfl, outcomes_of_none hcall]
      rfl
  | returns =>
    simp only [step] at h
    split at h
    · rename_i q data hcall hfuture
      rw [← Option.some.inj h]
      refine .same nofun ?_
      rw [outcomes_of_none rfl, outcomes, hcall, hfuture]
      rfl
    · rename_i q hcall hfuture
      rw [← Option.some.inj h]
      refine .same nofun ?_
      rw [outcomes_of_none rfl, outcomes, hcall, hfuture]
      rfl
    · cases h
  | timeout =>
    simp only [step] at h
    split at h
    · rename_i q hcall hfuture
      rw [← Option.some.inj h]
      refine .timedOut q nofun ?_
      rw [outcomes_of_none rfl, outcomes_waiting hfuture]
      rfl
    · cases h
  | deliverQuery =>
    simp only [step] at h
    split at h
    · rw [← Option.some.inj h]
      exact .same nofun rfl
    · cases h
  | serve found =>
    simp only [step] at h
    split at h
    · rw [← Option.some.inj h]
      exact .same nofun rfl
    · cases h
  | deliverResponse =>
    simp only [step] at h
    split at h
    · rename_i payload rest hhead
      rw [← Option.some.inj h]
      by_cases hfuture : s.future = some .pending
      · cases hcall : s.call with
        | none =>
          refine .same ?_ ?_
          · intro _ q hq
            rw [hcall] at hq
            cases hq
          · rw [outcomes_of_none hcall, outcomes_of_none rfl]
        | some q =>
          refine .answered q payload rest rfl hcall hfuture hhead rfl fun data hdata => ?_
          rw [outcomes_waiting hfuture, outcomes, hfuture]
          simp only [handleResponse, hdata]
      · have hkeep : handleResponse s.future payload = s.future := by
          unfold handleResponse
          split
          · rename_i hp
            exact absurd hp hfuture
          · rfl
        refine .same (fun _ q _ hp => absurd hp hfuture) ?_
        rw [hkeep]
        rfl
    · cases h

/-- What was produced stays so. -/
theorem produced_step {s t : St} {l : Lbl} (h : step repr cfg s l = some t) :
    s.produced ⊆ t.produced := by
  cases l <;> simp only [step] at h <;> split at h <;> cases h <;>
    simp [startQuery, endQuery]

/-- What is left of a list after `n` steps, and after one more. -/
theorem drop_cons {α : Type} {l : List α} {n : Nat} {x : α} {xs : List α}
    (h : l.drop n = x :: xs) : l[n]? = some x ∧ l.drop (n + 1) = xs := by
  rw [← List.head?_drop, ← List.tail_drop, h]
  exact ⟨rfl, rfl⟩

/-- The next response is the one to the call whose turn it is. -/
theorem next_response {s : St} (hi : Inv repr s) {payload : Bytes} {rest : List Bytes}
    (hhead : s.toClient = payload :: rest) :
    rest = (s.produced.drop (s.delivered + 1)).map (fun e => line repr e.2) ∧
      s.delivered < s.produced.length ∧
      ∃ (q : Query) (found : Found), s.queries[s.delivered]? = some q ∧
        (line repr (queryData q), responseData (.str q.name) (.str q.qtype) found) ∈ s.produced ∧
        loadsLine payload = some (responseData (.str q.name) (.str q.qtype) found) := by
  have hsent := hi.sent
  rw [hhead] at hsent
  obtain ⟨e, es, hdrop, hpayload, hrest⟩ := List.map_eq_cons_iff.mp hsent.symm
  obtain ⟨hget, htail⟩ := drop_cons hdrop
  obtain ⟨q, found, hq, he⟩ := hi.produced _ e hget
  refine ⟨?_, (List.getElem?_eq_some_iff.mp hget).1, q, found, hq, ?_, ?_⟩
  · rw [htail, hrest]
  · rw [← he]
    exact List.mem_of_getElem? hget
  · rw [← hpayload, he]
    exact loads_response repr q.name q.qtype found

theorem known_step {s t : St} {l : Lbl} (hi : Inv repr s) (h : step repr cfg s l = some t) :
    ∀ r ∈ outcomes t, r.2 = .returned timedOut ∨ ∃ e ∈ t.produced, r.2 = .returned e.2 := by
  have hsub := produced_step repr cfg h
  have hold : ∀ r ∈ outcomes s,
      r.2 = .returned timedOut ∨ ∃ e ∈ t.produced, r.2 = .returned e.2 := by
    intro r hr
    rcases hi.known r hr with hr | ⟨e, he, hr⟩
    · exact .inl hr
    · exact .inr ⟨e, hsub he, hr⟩
  intro r hr
  cases step_changes repr cfg h with
  | same _ h => exact hold r (h ▸ hr)
  | timedOut q _ h =>
    rw [h] at hr
    rcases List.mem_append.mp hr with hr | hr
    · exact hold r hr
    · rw [List.mem_singleton.mp hr]
      exact .inl rfl
  | answered q payload rest _ _ _ hhead hprod h =>
    obtain ⟨-, -, q', found, -, he, hload⟩ := next_response repr hi hhead
    rw [h _ hload] at hr
    rcases List.mem_append.mp hr with hr | hr
    · exact hold r hr
    · rw [List.mem_singleton.mp hr]
      exact .inr ⟨_, hsub he, rfl⟩

/-- The peer answers the call whose turn it is. -/
theorem inv_serve {s t : St} {found : Found} (hi : Inv repr s)
    (h : step repr cfg s (.serve found) = some t) : Inv repr t := by
  have hknown := known_step repr cfg hi h
  simp only [step] at h
  split at h
  · rename_i payload rest hhead
    rw [← Option.some.inj h] at hknown ⊢
    have hasked := hi.asked
    rw [hhead, List.cons_append] at hasked
    obtain ⟨q, later, hdrop, hpayload, hlater⟩ := List.map_eq_cons_iff.mp hasked.symm
    obtain ⟨hget, htail⟩ := drop_cons hdrop
    have hlt := (List.getElem?_eq_some_iff.mp hget).1
    rw [← hpayload, handleQuery_query] at hknown ⊢
    refine ⟨?_, ?_, ?_, ?_, ?_, hknown⟩
    · rw [List.length_append, List.length_singleton, htail, hlater]
    · rw [List.length_append, List.length_singleton]
      exact hlt
    · intro i e he
      rcases Nat.lt_or_ge i s.produced.length with hi' | hi'
      · rw [List.getElem?_append_left hi'] at he
        exact hi.produced i e he
      · rw [List.getElem?_append_right hi', List.getElem?_singleton] at he
        split at he
        · rename_i h0
          cases he
          have hat : i = s.produced.length := by omega
          exact ⟨q, _, by rw [hat]; exact hget, rfl⟩
        · cases he
    · rw [List.drop_append_of_le_length hi.arrived, List.map_append, ← hi.sent]
      rfl
    · rw [List.length_append]
      exact Nat.le_add_right_of_le hi.arrived
  · cases h

theorem inv_step {s t : St} {l : Lbl} (hi : Inv repr s) (h : step repr cfg s l = some t) :
    Inv repr t := by
  have hknown := known_step repr cfg hi h
  cases l with
  | serve found => exact inv_serve repr cfg hi h
  | query name qtype =>
    simp only [step] at h
    split at h
    · cases h
    · rw [← Option.some.inj h] at hknown ⊢
      refine ⟨?_, ?_, ?_, hi.sent, hi.arrived, hknown⟩
      · simp only [startQuery]
        rw [List.drop_append_of_le_length hi.served, List.map_append, ← hi.asked,
          List.append_assoc]
        rfl
      · simp only [startQuery, List.length_append]
        exact Nat.le_add_right_of_le hi.served
      · intro i e he
        obtain ⟨q, found, hq, hrest⟩ := hi.produced i e he
        exact ⟨q, found, List.getElem?_append_left (List.getElem?_eq_some_iff.mp hq).1 ▸ hq, hrest⟩
  | returns =>
    simp only [step] at h
    split at h
    · rw [← Option.some.inj h] at hknown ⊢
      exact ⟨hi.asked, hi.served, hi.produced, hi.sent, hi.arrived, hknown⟩
    · rw [← Option.some.inj h] at hknown ⊢
      exact ⟨hi.asked, hi.served, hi.produced, hi.sent, hi.arrived, hknown⟩
    · cases h
  | timeout =>
    simp only [step] at h
    split at h
    · rw [← Option.some.inj h] at hknown ⊢
      exact ⟨hi.asked, hi.served, hi.produced, hi.sent, hi.arrived, hknown⟩
    · cases h
  | deliverQuery =>
    simp only [step] at h
    split at h
    · rename_i payload rest hhead
      rw [← Option.some.inj h] at hknown ⊢
      refine ⟨?_, hi.served, hi.produced, hi.sent, hi.arrived, hknown⟩
      rw [← hi.asked, hhead, List.append_assoc]
      rfl
    · cases h
  | deliverResponse =>
    simp only [step] at h
    split at h
    · rename_i payload rest hhead
      rw [← Option.some.inj h] at hknown ⊢
      obtain ⟨hrest, hlt, -⟩ := next_response repr hi hhead
      exact ⟨hi.asked, hi.served, hi.produced, hrest, hlt, hknown⟩
    · cases h

/-! ## Answers -/

/-- By what the response itself says. -/
def Right (r : Query × Outcome) : Prop :=
  r.2 = .returned timedOut ∨ ∃ data, r.2 = .returned data ∧ Names data r.1

theorem belongs_iff {s : St} (hi : Inv repr s) {r : Query × Outcome} (hr : r ∈ outcomes s) :
    Belongs repr s r ↔ Right r := by
  unfold Belongs Right
  constructor
  · rintro (h | ⟨data, h, hmem⟩)
    · exact .inl h
    · obtain ⟨i, hget⟩ := List.mem_iff_getElem?.mp hmem
      obtain ⟨q, found, -, he⟩ := hi.produced i _ hget
      obtain ⟨hq, hdata⟩ := Prod.mk.inj he
      refine .inr ⟨data, h, ?_⟩
      rw [hdata, names_response, line_queryData_inj repr hq]
  · rintro (h | ⟨data, h, hnames⟩)
    · exact .inl h
    · rcases hi.known r hr with ht | ⟨e, he, hre⟩
      · exact .inl ht
      · obtain ⟨i, hget⟩ := List.mem_iff_getElem?.mp he
        obtain ⟨q, found, -, hq⟩ := hi.produced i e hget
        rw [hq] at he hre
        cases h.symm.trans hre
        rw [names_response] at hnames
        exact .inr ⟨_, hre, hnames ▸ he⟩

/-- A step keeps the outcomes right exactly when it is in turn. -/
theorem right_step {s t : St} {l : Lbl} (hi : Inv repr s) (h : step repr cfg s l = some t) :
    (∀ r ∈ outcomes t, Right r) ↔ (∀ r ∈ outcomes s, Right r) ∧ InTurn s l := by
  cases step_changes repr cfg h with
  | same hm h => rw [h, and_iff_left hm]
  | timedOut q hm h =>
    rw [h, List.forall_mem_append, List.forall_mem_singleton, and_iff_left hm]
    exact and_iff_left (.inl rfl)
  | answered q payload rest hl hcall hfuture hhead _ h =>
    obtain ⟨-, -, q', found, hturn, -, hload⟩ := next_response repr hi hhead
    rw [h _ hload, List.forall_mem_append, List.forall_mem_singleton]
    refine and_congr_right fun _ => ?_
    constructor
    · rintro (ht | ⟨data, hd, hnames⟩) _ p hp _
      · exact absurd (Outcome.returned.inj ht) (response_ne_timedOut _ _ _)
      · cases hcall.symm.trans hp
        cases hd
        have heq : q = q' := names_response.mp hnames
        rw [hturn, heq]
    · intro hm
      have hq := hm hl q hcall hfuture
      rw [hturn, Option.some.injEq] at hq
      exact .inr ⟨_, rfl, names_response.mpr hq.symm⟩

/-- **When answers belong to their query.** In a run every call has returned, or is about to
return, the timeout error or the response produced for its own name and type, if and only if
every response that came while a call waited was in its turn. -/
theorem answers_belong_iff {s : St} {ls : List Lbl} (hr : (lts repr cfg).Run init ls s) :
    (∀ r ∈ outcomes s, Belongs repr s r) ↔ ((lts repr cfg).restrict InTurn).Run init ls s := by
  have hi : Inv repr s := hr.invariant (fun _ _ _ => inv_step repr cfg) (inv_init repr)
  have hright : (∀ r ∈ outcomes s, Belongs repr s r) ↔ ∀ r ∈ outcomes s, Right r :=
    forall₂_congr fun r hm => belongs_iff repr hi hm
  have hiff := LTS.Run.restrict_iff (C := InTurn) (I := Inv repr)
    (P := fun s => ∀ r ∈ outcomes s, Right r) (fun _ _ _ => inv_step repr cfg)
    (fun _ _ _ => right_step repr cfg) hr (inv_init repr)
  rw [hright, hiff]
  exact and_iff_right (by simp [init, outcomes])

/-! ## A late response -/

/-- The response to a query. -/
def answer (q : Query) (found : Found) : Json :=
  responseData (.str q.name) (.str q.qtype) (lookup cfg (.str q.qtype) found)

theorem handleResponse_answer (q : Query) (found : Found) :
    handleResponse (some .pending) (line repr (answer cfg q found)) =
      some (.result (answer cfg q found)) := by
  rw [answer, handleResponse, loads_response]

/-- A call has returned its answer. -/
def answered (q : Query) (found : Found) : St where
  future := some (.result (answer cfg q found))
  queries := [q]
  produced := [(line repr (queryData q), answer cfg q found)]
  delivered := 1
  results := [(q, .returned (answer cfg q found))]

theorem answered_run (name qtype : String) (found : Found) :
    (lts repr cfg).Run init [.query name qtype, .deliverQuery, .serve found, .deliverResponse,
      .returns] (answered repr cfg ⟨name, cfg.upper qtype⟩ found) := by
  apply LTS.run_of_exec
  have hserve := handleQuery_query repr cfg ⟨name, cfg.upper qtype⟩ found
  have hdeliver := handleResponse_answer repr cfg ⟨name, cfg.upper qtype⟩ found
  rw [← answer] at hserve
  simp [LTS.exec, step, init, startQuery, endQuery, hserve, hdeliver, answered]

/-- One query has timed out, and another one has its answer. -/
def misled (q q' : Query) (found : Found) : St where
  future := some (.result (answer cfg q found))
  toServer := [line repr (queryData q')]
  queries := [q, q']
  produced := [(line repr (queryData q), answer cfg q found)]
  delivered := 1
  results := [(q, .returned timedOut), (q', .returned (answer cfg q found))]

theorem misled_run (name qtype name' qtype' : String) (found : Found) :
    (lts repr cfg).Run init [.query name qtype, .deliverQuery, .timeout, .serve found,
      .query name' qtype', .deliverResponse, .returns]
      (misled repr cfg ⟨name, cfg.upper qtype⟩ ⟨name', cfg.upper qtype'⟩ found) := by
  apply LTS.run_of_exec
  have hserve := handleQuery_query repr cfg ⟨name, cfg.upper qtype⟩ found
  have hdeliver := handleResponse_answer repr cfg ⟨name, cfg.upper qtype⟩ found
  rw [← answer] at hserve
  simp [LTS.exec, step, init, startQuery, endQuery, hserve, hdeliver, misled]

def config : Config where
  upper := fun t => String.ofList (t.toList.map Char.toUpper)
  format := fun _ => ""
  loadsError := fun _ => ""

def textOf : PyFloat → Text := fun _ => []

def found : Found := ⟨["192.0.2.1"], ""⟩

/-- A response comes while the call it is for waits. -/
theorem answered_in_turn : ((lts textOf config).restrict InTurn).Run init
    [.query "a.example" "a", .deliverQuery, .serve found, .deliverResponse, .returns]
    (answered textOf config ⟨"a.example", config.upper "a"⟩ found) :=
  (answers_belong_iff textOf config (answered_run textOf config _ _ found)).mp (by
    intro r hr
    rw [List.mem_singleton.mp hr]
    exact .inr ⟨_, rfl, List.mem_singleton.mpr rfl⟩)

/-- **A late response is taken for another query's.** -/
theorem late_response_misleads : ¬ ∀ (ls : List Lbl) (s : St),
    (lts textOf config).Run init ls s → ∀ r ∈ s.results, Belongs textOf s r := by
  intro h
  have hbelongs := h _ _ (misled_run textOf config "a.example" "a" "b.example" "a" found)
    _ (List.mem_cons_of_mem _ List.mem_cons_self)
  rcases hbelongs with ht | ⟨data, hd, hm⟩
  · exact response_ne_timedOut _ _ _ (Outcome.returned.inj ht)
  · obtain ⟨hq, -⟩ := Prod.mk.inj (List.mem_singleton.mp hm)
    exact absurd (line_queryData_inj textOf hq) (by decide)

end Wormhole.L5.DnsAnswers
