import Wormhole.Core.LTS
import Wormhole.L1Encoding.JsonParse
import Wormhole.L1Encoding.Utf8Cut
import Wormhole.L4App.Dilation

/-!
# Fetches over a dilated wormhole (`browser-extension/src/background.js`)

`fetchOverDilatedWormhole` from where it has sent its request: it collects the DATA records of its
subchannel and tries to parse what it has after each of them. The first text that parses resolves
the promise it waits for; then it closes the subchannel and returns the response. Records keep
coming in meanwhile. `onError` of a subchannel is called by nobody.

* `front_parsed`: what was collected of a response does not parse, or parses as the response.
* `fetch_resolves_once`: in a run that brings the records of a response before the timer fires, the
  promise is pending and then resolved with the response for good. The function's own promise is
  resolved once too, with the response and its content type.
* `content_type_added`: that is not the response alone, and the timer may come first.
-/
namespace Wormhole.L5.DilatedFetch
open Wormhole.L1 Wormhole.L1.JsonText Wormhole.L1.JsonParse Wormhole.L4.Dilation

/-! ## Values -/

/-- `undefined` is `none`. -/
def property (x : JsValue) (key : String) : Option JsValue :=
  match x with
  | .obj fields => Dict.lookup (L1.units key) fields
  | _ => none

def truthy : JsValue → Bool
  | .null => false
  | .bool b => b
  | .num (.fin q) => q ≠ 0
  | .num .negZero => false
  | .num .nan => false
  | .num _ => true
  | .str s => s ≠ []
  | .arr _ => true
  | .obj _ => true

/-- `x || y`, where `x` may be `undefined`. -/
def orElse (x : Option JsValue) (y : JsValue) : JsValue :=
  match x with
  | some x => if truthy x then x else y
  | none => y

/-- mirrors browser-extension/src/background.js:425-427 (`fetchOverDilatedWormhole`) -/
def contentType (headers : JsValue) : JsValue :=
  orElse (property headers "Content-Type")
    (orElse (property headers "content-type") (.str (L1.units "text/html")))

/-! ## The fetch -/

inductive Failure
  | error (message : String)
  /-- A property of `null`. -/
  | typeError
  deriving DecidableEq

/-- Once it is settled, a promise stays as it is. -/
inductive Promise
  | pending
  | resolved (x : JsValue)
  | rejected (e : Failure)

def Promise.resolve (x : JsValue) : Promise → Promise
  | .pending => .resolved x
  | p => p

def Promise.reject (e : Failure) : Promise → Promise
  | .pending => .rejected e
  | p => p

/-- With truthy headers the content type is set on the response.

mirrors browser-extension/src/background.js:424-431 (`fetchOverDilatedWormhole`) -/
def withContentType (fields : Props) : Props :=
  match property (.obj fields) "headers" with
  | some headers =>
    if truthy headers then Dict.assign (L1.units "contentType") (contentType headers) fields
    else fields
  | none => fields

/-- What becomes of the function's promise; only an object can have headers.

mirrors browser-extension/src/background.js:424-433 (`fetchOverDilatedWormhole`) -/
def Promise.conclude (response : JsValue) (p : Promise) : Promise :=
  match response with
  | .null => p.reject .typeError
  | .obj fields => p.resolve (.obj (withContentType fields))
  | x => p.resolve x

/-- Where the function is: it awaits the response, it awaits `subchannel.close()`, which may be
sending a CLOSE record, or it is over. -/
inductive Stage
  | awaiting
  | closing (response : JsValue) (sends : Bool)
  | ended

/-- `registered` says whether the manager has the subchannel under its id, `timeout` whether the
timer runs. `response` is the promise that is awaited, `result` the function's own. -/
structure Fetch where
  subchannel : Subchannel
  registered : Bool
  responseData : Bytes
  timeout : Bool
  response : Promise
  stage : Stage
  result : Promise

/-- `onData` has been set.

mirrors browser-extension/src/background.js:381-412 (`fetchOverDilatedWormhole`) -/
def Fetch.new (s : Subchannel) : Fetch where
  subchannel := { s with onData := true }
  registered := true
  responseData := []
  timeout := true
  response := .pending
  stage := .awaiting
  result := .pending

/-- `JSON.parse(new TextDecoder().decode(bytes))` -/
def parsed (bytes : Bytes) : Option JsValue := jsonParse (textDecodeLossy bytes).toList

namespace Fetch

/-- mirrors browser-extension/src/background.js:388-403 (`onData`) -/
def onData (f : Fetch) (data : Bytes) : Fetch :=
  match parsed (f.responseData ++ data) with
  | some x => { f with
      responseData := f.responseData ++ data
      timeout := false
      response := f.response.resolve x }
  | none => { f with responseData := f.responseData ++ data }

/-- mirrors browser-extension/src/background.js:405-417 (`onClose`) -/
def onClose (f : Fetch) : Fetch :=
  { f with
    timeout := false
    response :=
      if 0 < f.responseData.length then
        match parsed f.responseData with
        | some x => f.response.resolve x
        | none => f.response.reject (.error "Invalid response data")
      else f.response.reject (.error "Subchannel closed without response") }

/-- A DATA record; nobody is there for it when the manager has lost the subchannel.

mirrors packages/dilation/src/index.js:573-577 (`_handleControlMessage`) and :840-848
(`_receiveData`) -/
def receiveData (f : Fetch) (data : Bytes) : Fetch :=
  if f.registered then
    (f.subchannel.handed data).foldl onData { f with subchannel := f.subchannel.receiveData data }
  else f

/-- mirrors packages/dilation/src/index.js:578-582 (`_handleControlMessage`) and :853-860
(`_handleClose`) -/
def handleClose (f : Fetch) : Fetch :=
  if f.registered then
    { f with subchannel := { f.subchannel with isOpen := false }, registered := false }.onClose
  else f

/-- `await new Promise(...)` returns or throws.

mirrors browser-extension/src/background.js:420-421 and :434-437 (`fetchOverDilatedWormhole`) and
packages/dilation/src/index.js:872-875 (`Subchannel.close`) -/
def resume (f : Fetch) : Option Fetch :=
  match f.stage, f.response with
  | .awaiting, .resolved x => some { f with
      subchannel := { f.subchannel with isOpen := false }
      stage := .closing x f.subchannel.isOpen }
  | .awaiting, .rejected e => some { f with stage := .ended, result := f.result.reject e }
  | _, _ => none

/-- `await subchannel.close()` returns; an error of the CLOSE record is ignored.

mirrors browser-extension/src/background.js:424-433 (`fetchOverDilatedWormhole`) and
packages/dilation/src/index.js:877-884 (`Subchannel.close`) -/
def closed (f : Fetch) : Option Fetch :=
  match f.stage with
  | .closing x sends => some { f with
      registered := f.registered && !sends
      stage := .ended
      result := f.result.conclude x }
  | _ => none

end Fetch

inductive Event
  | data (payload : Bytes)
  | close
  | timeout
  | resume
  | closed
  deriving DecidableEq

/-- mirrors browser-extension/src/background.js:383-385 (`setTimeout`) for the timer -/
def step (f : Fetch) : Event → Option Fetch
  | .data payload => some (f.receiveData payload)
  | .close => some f.handleClose
  | .timeout =>
    if f.timeout then some { f with
      timeout := false
      response := f.response.reject (.error "HTTP request timeout") }
    else none
  | .resume => f.resume
  | .closed => f.closed

def system : LTS Fetch Event := .ofStep (fun f => ∃ s, f = .new s) step

/-! ## What is collected -/

/-- The text of an object, and its bytes. -/
structure IsResponse (bytes : Bytes) (x : JsValue) : Prop where
  whole : parsed bytes = some x
  front : ∀ front, front <+: bytes → parsed front = none ∨ parsed front = some x
  nonempty : parsed [] = none

theorem dropBom_brace (cs : Text) : dropBom ('\x7b' :: cs) = '\x7b' :: cs := rfl

theorem dropBom_front {rest text : Text} (h : text <+: '\x7b' :: rest) : dropBom text = text := by
  cases text with
  | nil => rfl
  | cons c text =>
    obtain ⟨rfl, -⟩ := List.cons_prefix_cons.mp h
    rfl

/-- **A response is not taken for another** when only a part of it is there: a part does not parse,
or what is missing is white space. -/
theorem front_parsed {rest : Text} {x : JsValue} (h : jsonParse ('\x7b' :: rest) = some x)
    {front : Bytes} (hf : front <+: encode (String.ofList ('\x7b' :: rest))) :
    parsed front = none ∨ parsed front = some x := by
  rw [encode_ofList] at hf
  obtain ⟨text, htext, hdec⟩ := Utf8Cut.decodeFrom_prefix hf
  obtain ⟨hpart, hcut⟩ := jsonParse_prefix h htext
  unfold parsed
  rw [Utf8Cut.textDecodeLossy_eq, String.toList_ofList]
  rcases hdec with hdec | hdec
  · rw [hdec, dropBom_front htext]
    exact hpart
  · have hbom : dropBom (text ++ ['\ufffd']) = text ++ ['\ufffd'] := by
      cases text with
      | nil => rfl
      | cons c text =>
        obtain ⟨rfl, -⟩ := List.cons_prefix_cons.mp htext
        rfl
    rw [hdec, hbom]
    exact .inl hcut

theorem isResponse {rest : Text} {x : JsValue} (h : jsonParse ('\x7b' :: rest) = some x) :
    IsResponse (encode (String.ofList ('\x7b' :: rest))) x := by
  refine ⟨?_, fun front hf => front_parsed h hf, ?_⟩
  · unfold parsed
    rw [encode_ofList, Utf8Cut.textDecodeLossy_encode, String.toList_ofList, dropBom_brace]
    exact h
  · have hnil : textDecodeLossy [] = String.ofList [] := Utf8Cut.textDecodeLossy_encode []
    unfold parsed
    rw [hnil, String.toList_ofList]
    rfl

/-! ## Runs -/

def Event.isRecord : Event → Bool
  | .data _ => true
  | .close => true
  | _ => false

/-- The records of a run are those of `chunks`, perhaps with a CLOSE behind them. -/
def Delivers (events : List Event) (chunks : List Bytes) : Prop :=
  events.filter Event.isRecord = chunks.map .data ∨
    events.filter Event.isRecord = chunks.map .data ++ [.close]

/-- Along a run a promise is pending at first, and from some event on resolved with `x`. -/
def ResolvesOnce (p : Fetch → Promise) (x : JsValue) (f : Fetch) (events : List Event) : Prop :=
  ∃ k ≤ events.length, ∀ done g, done <+: events → system.Run f done g →
    p g = if done.length < k then .pending else .resolved x

/-- The response is not there yet, and `got` is. -/
structure Waiting (f : Fetch) (got : Bytes) : Prop where
  registered : f.registered = true
  listens : f.subchannel.onData = true
  data : f.responseData = got
  response : f.response = .pending
  stage : f.stage = .awaiting
  result : f.result = .pending

/-- How far the function is with a response. -/
def Stage.With (fields : Props) (result : Promise) : Stage → Prop
  | .awaiting => result = .pending
  | .closing x _ => x = .obj fields ∧ result = .pending
  | .ended => result = .resolved (.obj (withContentType fields))

structure Answered (f : Fetch) (fields : Props) : Prop where
  response : f.response = .resolved (.obj fields)
  timeout : f.timeout = false
  stage : f.stage.With fields f.result

section
variable {f g : Fetch} {fields : Props} {got : Bytes} {e : Event}

theorem answered_onData (h : Answered f fields) (data : Bytes) :
    Answered (f.onData data) fields := by
  unfold Fetch.onData
  split
  · exact ⟨by simp [h.response, Promise.resolve], rfl, h.stage⟩
  · exact ⟨h.response, h.timeout, h.stage⟩

theorem answered_foldl (chunks : List Bytes) (h : Answered f fields) :
    Answered (chunks.foldl Fetch.onData f) fields := by
  induction chunks generalizing f with
  | nil => exact h
  | cons data chunks ih => exact ih (answered_onData h data)

theorem answered_onClose (h : Answered f fields) : Answered f.onClose fields := by
  refine ⟨?_, rfl, h.stage⟩
  simp only [Fetch.onClose, h.response]
  split
  · split <;> rfl
  · rfl

/-- Nothing changes a promise that is resolved, and the function goes on to its end. -/
theorem answered_step (h : Answered f fields) (hs : step f e = some g) : Answered g fields := by
  cases e with
  | data payload =>
    cases hs
    unfold Fetch.receiveData
    split
    · exact answered_foldl _ ⟨h.response, h.timeout, h.stage⟩
    · exact h
  | close =>
    cases hs
    unfold Fetch.handleClose
    split
    · exact answered_onClose ⟨h.response, h.timeout, h.stage⟩
    · exact h
  | timeout =>
    simp only [step, h.timeout, Bool.false_eq_true, if_false] at hs
    cases hs
  | resume =>
    have hstage := h.stage
    simp only [step, Fetch.resume, h.response] at hs
    split at hs
    · rename_i x hst hx
      cases hs
      cases hx
      rw [hst] at hstage
      exact ⟨rfl, h.timeout, rfl, hstage⟩
    · rename_i hx
      cases hx
    · cases hs
  | closed =>
    have hstage := h.stage
    simp only [step, Fetch.closed] at hs
    split at hs
    · rename_i x sends hst
      cases hs
      rw [hst] at hstage
      obtain ⟨rfl, hpending⟩ := hstage
      refine ⟨h.response, h.timeout, ?_⟩
      simp [Stage.With, Promise.conclude, hpending, Promise.resolve]
    · cases hs

/-- Who waits goes on waiting, or has the response. -/
theorem waiting_data (h : Waiting f got) (payload : Bytes)
    (hp : parsed (got ++ payload) = none ∨ parsed (got ++ payload) = some (.obj fields)) :
    (Waiting (f.receiveData payload) (got ++ payload) ∧ parsed (got ++ payload) = none) ∨
      Answered (f.receiveData payload) fields := by
  have hreceive : f.receiveData payload =
      { f with subchannel := f.subchannel.receiveData payload }.onData payload := by
    unfold Fetch.receiveData
    rw [if_pos h.registered]
    simp only [Subchannel.handed, h.listens, if_true, List.foldl_cons, List.foldl_nil]
  rw [hreceive]
  unfold Fetch.onData
  dsimp only
  rw [h.data]
  rcases hp with hp | hp
  · rw [hp]
    exact .inl ⟨⟨h.registered, h.listens, rfl, h.response, h.stage, h.result⟩, rfl⟩
  · rw [hp]
    refine .inr ⟨?_, rfl, ?_⟩
    · simp [h.response, Promise.resolve]
    · simp only [h.stage, Stage.With, h.result]

/-- While the timer does not fire, a run has the response or still waits, with a part of the
records that does not parse. -/
theorem reached {bytes : Bytes} (hI : IsResponse bytes (.obj fields)) {events : List Event}
    (hr : system.Run f events g) {chunks : List Bytes} (hf : Waiting f got)
    (hnone : parsed got = none) (hgot : got ++ chunks.flatten = bytes)
    (hrec : events.filter Event.isRecord <+: chunks.map .data ++ [.close])
    (ht : .timeout ∉ events) :
    Answered g fields ∨ ∃ done : List Bytes, events.filter Event.isRecord = done.map .data ∧
      Waiting g (got ++ done.flatten) ∧ parsed (got ++ done.flatten) = none := by
  induction hr generalizing got chunks with
  | nil f =>
    refine .inr ⟨[], rfl, ?_⟩
    rw [List.flatten_nil, List.append_nil]
    exact ⟨hf, hnone⟩
  | @cons f u g e events hst hrun ih =>
    have hstep : step f e = some u := hst
    have ht' : Event.timeout ∉ events := fun h => ht (List.mem_cons_of_mem e h)
    cases e with
    | data payload =>
      rw [List.filter_cons_of_pos rfl] at hrec ⊢
      cases chunks with
      | nil => cases (List.cons_prefix_cons.mp hrec).1
      | cons chunk chunks =>
        rw [List.map_cons, List.cons_append] at hrec
        obtain ⟨heq, hrest⟩ := List.cons_prefix_cons.mp hrec
        cases heq
        cases hstep
        rw [List.flatten_cons, ← List.append_assoc] at hgot
        have hfront : got ++ payload <+: bytes := ⟨chunks.flatten, hgot⟩
        rcases waiting_data hf payload (hI.front _ hfront) with ⟨hw, hp⟩ | ha
        · rcases ih hw hp hgot hrest ht' with ha | ⟨done, hdone, hwait, hparsed⟩
          · exact .inl ha
          · rw [List.append_assoc, ← List.flatten_cons] at hwait hparsed
            refine .inr ⟨payload :: done, ?_, hwait, hparsed⟩
            rw [hdone, List.map_cons]
        · exact .inl (hrun.invariant (I := fun f => Answered f fields)
            (fun _ _ _ h hs => answered_step h hs) ha)
    | close =>
      rw [List.filter_cons_of_pos rfl] at hrec
      cases chunks with
      | nil =>
        rw [List.flatten_nil, List.append_nil] at hgot
        rw [hgot, hI.whole] at hnone
        cases hnone
      | cons chunk chunks => cases (List.cons_prefix_cons.mp hrec).1
    | timeout => exact absurd List.mem_cons_self ht
    | resume =>
      simp only [step, Fetch.resume, hf.stage, hf.response] at hstep
      cases hstep
    | closed =>
      simp only [step, Fetch.closed, hf.stage] at hstep
      cases hstep

theorem delivered_all {events : List Event} {chunks done : List Bytes}
    (h : Delivers events chunks) (hdone : events.filter Event.isRecord = done.map .data) :
    done = chunks := by
  have hinj : Function.Injective Event.data := fun _ _ h => Event.data.inj h
  rcases h with h | h
  · exact (List.map_injective_iff.mpr hinj) (hdone.symm.trans h)
  · have hclose : Event.close ∈ done.map Event.data := by
      rw [← hdone, h]
      exact List.mem_append_right _ List.mem_cons_self
    obtain ⟨_, -, hne⟩ := List.mem_map.mp hclose
    cases hne

theorem foldl_onData_stage (chunks : List Bytes) (f : Fetch) :
    (chunks.foldl Fetch.onData f).stage = f.stage := by
  induction chunks generalizing f with
  | nil => rfl
  | cons data chunks ih =>
    rw [List.foldl_cons, ih]
    unfold Fetch.onData
    split <;> rfl

theorem ended_step (h : f.stage = .ended) (hs : step f e = some g) : g.stage = .ended := by
  cases e with
  | data payload =>
    cases hs
    unfold Fetch.receiveData
    split
    · exact (foldl_onData_stage _ _).trans h
    · exact h
  | close =>
    cases hs
    unfold Fetch.handleClose
    split
    · exact h
    · exact h
  | timeout =>
    simp only [step] at hs
    split at hs
    · cases hs
      exact h
    · cases hs
  | resume =>
    simp only [step, Fetch.resume, h] at hs
    cases hs
  | closed =>
    simp only [step, Fetch.closed, h] at hs
    cases hs

/-- A function that has the response and is not over can go on. -/
theorem answered_goes_on (h : Answered f fields) (hstage : f.stage ≠ .ended) :
    f.result = .pending ∧ ((step f .resume).isSome = true ∨ (step f .closed).isSome = true) := by
  have hwith := h.stage
  cases hs : f.stage with
  | awaiting =>
    rw [hs] at hwith
    refine ⟨hwith, .inl ?_⟩
    simp only [step, Fetch.resume, hs, h.response, Option.isSome_some]
  | closing x sends =>
    rw [hs] at hwith
    refine ⟨hwith.2, .inr ?_⟩
    simp only [step, Fetch.closed, hs, Option.isSome_some]
  | ended => exact absurd hs hstage

end

/-- A promise that is pending until something holds for good, and then has `x`. -/
theorem resolvesOnce_of_switch {p : Fetch → Promise} {x : JsValue} {A : Fetch → Prop}
    {f g : Fetch} {events : List Event} (hkeep : ∀ u e v, A u → step u e = some v → A v)
    (hx : ∀ u, A u → p u = .resolved x) (hr : system.Run f events g)
    (hall : ∀ done u, done <+: events → system.Run f done u → p u = .pending ∨ A u)
    (hlast : A g) : ResolvesOnce p x f events := by
  obtain ⟨k, hk, hswitch⟩ := LTS.Run.switch (A := fun u => p u = .pending) hkeep hr hall hlast
  refine ⟨k, hk, fun done u hd hrun => ?_⟩
  obtain ⟨hbefore, hafter⟩ := hswitch done u hd hrun
  split
  · rename_i hlt
    exact hbefore hlt
  · rename_i hge
    exact hx u (hafter (Nat.not_lt.mp hge))

theorem waiting_new (s : Subchannel) : Waiting (.new s) [] := ⟨rfl, rfl, rfl, rfl, rfl, rfl⟩

/-- **A dilated fetch resolves once, with the whole response.** The records of a response come in
order, however it was split, before the timer fires, and perhaps a CLOSE behind them; the function
goes on whenever it can. The promise it awaits is pending and then resolved with what the whole
response parses as. The function's own promise is resolved once, with that and its content type,
and until then the function can go on. -/
theorem fetch_resolves_once {rest : Text} {fields : Props}
    (hx : jsonParse ('\x7b' :: rest) = some (.obj fields)) {chunks : List Bytes}
    (hc : chunks.flatten = encode (String.ofList ('\x7b' :: rest))) (s : Subchannel)
    {events : List Event} {f : Fetch} (hr : system.Run (.new s) events f)
    (hrec : Delivers events chunks) (ht : .timeout ∉ events) :
    ResolvesOnce Fetch.response (.obj fields) (.new s) events ∧ f.timeout = false ∧
      (f.stage = .ended →
        ResolvesOnce Fetch.result (.obj (withContentType fields)) (.new s) events) ∧
      (f.stage ≠ .ended → f.result = .pending ∧
        ((step f .resume).isSome = true ∨ (step f .closed).isSome = true)) := by
  have hI := isResponse hx
  have hkeep : ∀ f e g, Answered f fields → step f e = some g → Answered g fields :=
    fun _ _ _ h hs => answered_step h hs
  have hpre : events.filter Event.isRecord <+: chunks.map .data ++ [.close] := by
    rcases hrec with h | h
    · exact h ▸ List.prefix_append _ _
    · exact h ▸ List.prefix_refl _
  -- Every state on the way waits or has the response; the last one has it.
  have hall : ∀ done g, done <+: events → system.Run (.new s) done g →
      (∃ got, Waiting g got) ∨ Answered g fields := by
    intro done g hdone hrun
    have hfilter : done.filter Event.isRecord <+: chunks.map .data ++ [.close] :=
      (hdone.filter _).trans hpre
    rcases reached hI hrun (waiting_new s) hI.nonempty (by rwa [List.nil_append]) hfilter
      (fun h => ht (hdone.subset h)) with ha | ⟨_, _, hw, _⟩
    · exact .inr ha
    · exact .inl ⟨_, hw⟩
  have hlast : Answered f fields := by
    rcases reached hI hr (waiting_new s) hI.nonempty (by rwa [List.nil_append]) hpre ht with
      ha | ⟨done, hdone, -, hnone⟩
    · exact ha
    · have hdone : done = chunks := delivered_all hrec hdone
      rw [hdone, List.nil_append, hc, hI.whole] at hnone
      cases hnone
  refine ⟨?_, hlast.timeout, ?_, answered_goes_on hlast⟩
  · exact resolvesOnce_of_switch hkeep (fun g ha => ha.response) hr
      (fun done g hd hrun => (hall done g hd hrun).imp_left fun ⟨_, hw⟩ => hw.response) hlast
  · intro hended
    have hresult : ∀ done g, done <+: events → system.Run (.new s) done g →
        g.result = .pending ∨ (Answered g fields ∧ g.stage = .ended) := by
      intro done g hd hrun
      rcases hall done g hd hrun with ⟨_, hw⟩ | ha
      · exact .inl hw.result
      · by_cases hstage : g.stage = .ended
        · exact .inr ⟨ha, hstage⟩
        · exact .inl (answered_goes_on ha hstage).1
    have hconcluded : ∀ g, Answered g fields ∧ g.stage = .ended →
        g.result = .resolved (.obj (withContentType fields)) := by
      rintro g ⟨ha, hstage⟩
      have hwith := ha.stage
      rwa [hstage] at hwith
    exact resolvesOnce_of_switch
      (fun _ _ _ h hs => ⟨hkeep _ _ _ h.1 hs, ended_step h.2 hs⟩) hconcluded hr hresult
      ⟨hlast, hended⟩

/-! ## Two responses -/

/-- A new subchannel. -/
def subchannel : Subchannel := .create 1 "wh-http" true

/-- `{"body":"é"}` after its opening brace. -/
def bodyText : Text :=
  ['\x22', 'b', 'o', 'd', 'y', '\x22', ':', '\x22', 'é', '\x22', '\x7d']

/-- It comes in two records, cut inside the `é`. -/
def bodyChunks : List Bytes :=
  [[0x7b, 0x22, 0x62, 0x6f, 0x64, 0x79, 0x22, 0x3a, 0x22, 0xc3], [0xa9, 0x22, 0x7d]]

def bodyRun : List Event := bodyChunks.map .data ++ [.resume, .close, .closed]

def bodyFetch : Fetch := LTS.after step (.new subchannel) bodyRun

theorem body_resolves_once :
    ResolvesOnce Fetch.response (.obj [(L1.units "body", .str [0xE9])]) (.new subchannel)
      bodyRun := by
  have hrun : system.Run (.new subchannel) bodyRun bodyFetch :=
    LTS.run_of_exec (LTS.exec_after (by decide +kernel))
  have hparse : jsonParse ('\x7b' :: bodyText) = some (.obj [(L1.units "body", .str [0xE9])]) := rfl
  have hchunks : bodyChunks.flatten = encode (String.ofList ('\x7b' :: bodyText)) := by
    rw [encode_ofList]
    rfl
  exact (fetch_resolves_once hparse hchunks subchannel hrun (.inr rfl) (by decide)).1

/-- `{"headers":{}}` after its opening brace. -/
def headersText : Text :=
  ['\x22', 'h', 'e', 'a', 'd', 'e', 'r', 's', '\x22', ':', '\x7b', '\x7d', '\x7d']

def headersFields : Props := [(L1.units "headers", .obj [])]

def headersBytes : Bytes := encode (String.ofList ('\x7b' :: headersText))

/-- What the function returns has a field that the response has not, and a response that is not
there when the timer fires is none. -/
theorem content_type_added :
    (jsonParse ('\x7b' :: headersText) = some (.obj headersFields) ∧
      ∃ f, system.Run (.new subchannel) [.data headersBytes, .resume, .closed] f ∧
        f.result = .resolved (.obj
          (headersFields ++ [(L1.units "contentType", .str (L1.units "text/html"))])) ∧
        f.result ≠ .resolved (.obj headersFields)) ∧
      ∃ f, system.Run (.new subchannel) [.data [0x7b], .timeout] f ∧
        f.response = .rejected (.error "HTTP request timeout") := by
  have hparse : jsonParse ('\x7b' :: headersText) = some (.obj headersFields) := rfl
  have hparsed : parsed headersBytes = some (.obj headersFields) := (isResponse hparse).whole
  have hbrace : parsed [0x7b] = none := Option.isNone_iff_eq_none.mp (by decide +kernel)
  refine ⟨⟨hparse, ?_⟩, ?_⟩
  · have hdata : step (.new subchannel) (.data headersBytes) = some { Fetch.new subchannel with
        subchannel := (Fetch.new subchannel).subchannel.receiveData headersBytes
        responseData := headersBytes
        timeout := false
        response := .resolved (.obj headersFields) } := by
      simp only [step, Fetch.receiveData, Fetch.new, Subchannel.handed, if_true, List.foldl_cons,
        List.foldl_nil, Fetch.onData, List.nil_append, hparsed, Promise.resolve]
    refine ⟨_, .cons hdata (.cons rfl (.cons rfl (.nil _))), rfl, ?_⟩
    intro h
    have hlen := congrArg (fun p => match p with | .resolved (.obj fs) => fs.length | _ => 0) h
    exact absurd hlen (by decide)
  · have hfront : step (.new subchannel) (.data [0x7b]) = some { Fetch.new subchannel with
        subchannel := (Fetch.new subchannel).subchannel.receiveData [0x7b]
        responseData := [0x7b] } := by
      simp only [step, Fetch.receiveData, Fetch.new, Subchannel.handed, if_true, List.foldl_cons,
        List.foldl_nil, Fetch.onData, List.nil_append, hbrace]
    exact ⟨_, .cons hfront (.cons rfl (.nil _)), rfl⟩

end Wormhole.L5.DilatedFetch
