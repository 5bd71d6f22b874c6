import Wormhole.Core.LiveWalk
import Wormhole.L4App.MailboxRequests

/-!
# The handlers of a message (`packages/mailbox/src/index.js`)

`handleMessage` walks the array of handlers itself, not a copy of it, and a handler may call `on`,
`off` and `cleanup` meanwhile. `off` takes the first registration of a function out and the array
closes up behind it; `cleanup` drops the arrays, but not the one that is being walked. What a
handler does is any function of the message and the client (`act`), up to its return or its
exception, which the walk catches. Arrays are known by number, and so are registrations, so that
a function that is registered twice is called for each.

* `reaches_iff`: every handler that was registered is called exactly once just when none but the
  last to be called takes one of them out.
* `waiting_phase_skips`: a handler of `waitForPhase` takes itself out, and the next one is not
  called.
* `dispatch_eq`: on handlers that take out nothing but themselves, the walk is `dispatch`.
-/
namespace Wormhole.L5.HandlerDispatch
open Wormhole.L1 Wormhole.L4.MailboxRequests Wormhole.LiveWalk

universe u v

/-! ## Clients -/

structure Registration (H : Type u) where
  slot : Nat
  handler : H
  deriving DecidableEq

/-- `messageHandlers` has an array for a type; an array that it has lost may still be walked.
`rest` is what else the handlers read and write.

mirrors packages/mailbox/src/index.js:48-64 (`constructor`) -/
structure Client (H : Type u) (σ : Type v) where
  pendingRequests : List String
  messageHandlers : String → Option Nat
  arrays : Nat → List (Registration H)
  nextArray : Nat
  nextSlot : Nat
  rest : σ
  allocated : ∀ type a, messageHandlers type = some a → a < nextArray
  fresh : ∀ a, ∀ r ∈ arrays a, r.slot < nextSlot
  distinct : ∀ a, ((arrays a).map Registration.slot).Nodup

/-- What a handler may do to the client it is called by. -/
inductive Call (H : Type u)
  | on (type : String) (handler : H)
  | off (type : String) (handler : H)
  | cleanup
  | request (id : String)

namespace Client

variable {H : Type u} {σ : Type v}

def new (rest : σ) : Client H σ where
  pendingRequests := []
  messageHandlers := fun _ => none
  arrays := fun _ => []
  nextArray := 0
  nextSlot := 0
  rest := rest
  allocated := fun _ _ h => nomatch h
  fresh := fun _ _ h => nomatch h
  distinct := fun _ => .nil

/-- A new array for a type that has none. -/
def allocate (c : Client H σ) (type : String) : Client H σ where
  pendingRequests := c.pendingRequests
  messageHandlers := fun t => if t = type then some c.nextArray else c.messageHandlers t
  arrays := fun a => if a = c.nextArray then [] else c.arrays a
  nextArray := c.nextArray + 1
  nextSlot := c.nextSlot
  rest := c.rest
  allocated := by
    intro t a h
    split at h
    · cases h
      exact Nat.lt_succ_self _
    · exact Nat.lt_succ_of_lt (c.allocated t a h)
  fresh := by
    intro a r h
    split at h
    · cases h
    · exact c.fresh a r h
  distinct := by
    intro a
    split
    · exact .nil
    · exact c.distinct a

/-- `handlers.push(handler)` -/
def push (c : Client H σ) (a : Nat) (handler : H) : Client H σ where
  pendingRequests := c.pendingRequests
  messageHandlers := c.messageHandlers
  arrays := fun b => if b = a then c.arrays b ++ [⟨c.nextSlot, handler⟩] else c.arrays b
  nextArray := c.nextArray
  nextSlot := c.nextSlot + 1
  rest := c.rest
  allocated := c.allocated
  fresh := by
    intro b r h
    split at h
    · rcases List.mem_append.mp h with h | h
      · exact Nat.lt_succ_of_lt (c.fresh b r h)
      · rw [List.mem_singleton.mp h]
        exact Nat.lt_succ_self _
    · exact Nat.lt_succ_of_lt (c.fresh b r h)
  distinct := by
    intro b
    split
    · rw [List.map_append, List.map_singleton]
      refine List.nodup_append.mpr ⟨c.distinct b, List.nodup_singleton _, ?_⟩
      intro slot hslot slot' hslot' heq
      obtain ⟨r, hr, rfl⟩ := List.mem_map.mp hslot
      rw [List.mem_singleton.mp hslot'] at heq
      exact Nat.lt_irrefl _ (heq ▸ c.fresh b r hr)
    · exact c.distinct b

/-- `handlers.splice(index, 1)`; past the end nothing is there. -/
def splice (c : Client H σ) (a index : Nat) : Client H σ where
  pendingRequests := c.pendingRequests
  messageHandlers := c.messageHandlers
  arrays := fun b => if b = a then (c.arrays b).eraseIdx index else c.arrays b
  nextArray := c.nextArray
  nextSlot := c.nextSlot
  rest := c.rest
  allocated := c.allocated
  fresh := by
    intro b r h
    split at h
    · exact c.fresh b r (List.mem_of_mem_eraseIdx h)
    · exact c.fresh b r h
  distinct := by
    intro b
    split
    · exact (c.distinct b).sublist ((List.eraseIdx_sublist _ _).map _)
    · exact c.distinct b

/-- mirrors packages/mailbox/src/index.js:409-414 (`on`) -/
def on (c : Client H σ) (type : String) (handler : H) : Client H σ :=
  match c.messageHandlers type with
  | some a => c.push a handler
  | none => (c.allocate type).push c.nextArray handler

/-- `indexOf` finds the first.

mirrors packages/mailbox/src/index.js:434-442 (`off`) -/
def off [DecidableEq H] (c : Client H σ) (type : String) (handler : H) : Client H σ :=
  match c.messageHandlers type with
  | some a => c.splice a ((c.arrays a).findIdx fun r => r.handler = handler)
  | none => c

/-- mirrors packages/mailbox/src/index.js:447-455 (`cleanup`) -/
def cleanup (c : Client H σ) : Client H σ :=
  { c with
    pendingRequests := []
    messageHandlers := fun _ => none
    allocated := fun _ _ h => nomatch h }

def perform [DecidableEq H] (c : Client H σ) : Call H → Client H σ
  | .on type handler => c.on type handler
  | .off type handler => c.off type handler
  | .cleanup => c.cleanup
  | .request id => { c with pendingRequests := c.pendingRequests ++ [id] }

end Client

/-! ## What a handler does to an array -/

section
variable {H : Type u} {σ : Type v} {c : Client H σ} {a : Nat} {start : List (Registration H)}

/-- The array is there, and what is registered from now on is new to it. -/
def Known (start : List (Registration H)) (a : Nat) (c : Client H σ) : Prop :=
  a < c.nextArray ∧ ∀ r ∈ start, r.slot < c.nextSlot

theorem arrays_push (b : Nat) (handler : H) :
    (c.push b handler).arrays a =
      if a = b then c.arrays a ++ [⟨c.nextSlot, handler⟩] else c.arrays a := rfl

theorem arrays_splice (b index : Nat) :
    (c.splice b index).arrays a = if a = b then (c.arrays a).eraseIdx index else c.arrays a := rfl

theorem known_push (h : Known start a c) (b : Nat) (handler : H) :
    Known start a (c.push b handler) := ⟨h.1, fun r hr => Nat.lt_succ_of_lt (h.2 r hr)⟩

theorem known_allocate (h : Known start a c) (type : String) : Known start a (c.allocate type) :=
  ⟨Nat.lt_succ_of_lt h.1, h.2⟩

theorem edits_push (h : Known start a c) (b : Nat) (handler : H) :
    Edits start (c.arrays a) ((c.push b handler).arrays a) := by
  rw [arrays_push]
  split
  · refine .append _ ?_ (.refl _)
    intro hmem
    exact Nat.lt_irrefl _ (h.2 _ hmem)
  · exact .refl _

theorem known_start (h : a < c.nextArray) : Known (c.arrays a) a c := ⟨h, c.fresh a⟩

theorem nodup_arrays (c : Client H σ) (a : Nat) : (c.arrays a).Nodup :=
  List.Nodup.of_map _ (c.distinct a)

end

/-! ## Dispatch -/

section
variable {H : Type u} {σ : Type v}

/-- The request that a message answers.

mirrors packages/mailbox/src/index.js:378 (`handleMessage`) -/
def answers (c : Client H σ) (msg : Json) : Option String :=
  match idOf msg with
  | some id => if id ≠ "" ∧ id ∈ c.pendingRequests then some id else none
  | none => none

/-- `this.messageHandlers.get(msg.type)` -/
def handlersOf (c : Client H σ) (msg : Json) : Option Nat :=
  match field msg "type" with
  | .str type => c.messageHandlers type
  | _ => none

/-- The array that is walked. -/
def dispatched (c : Client H σ) (msg : Json) : Option Nat :=
  match answers c msg with
  | some _ => none
  | none => handlersOf c msg

theorem allocated_of_dispatched {c : Client H σ} {a : Nat} {msg : Json}
    (h : dispatched c msg = some a) : a < c.nextArray := by
  unfold dispatched at h
  split at h
  · cases h
  · unfold handlersOf at h
    split at h
    · exact c.allocated _ a h
    · cases h

end

section
variable {H : Type u} {σ : Type v} [DecidableEq H]
  (act : Json → H → Client H σ → List (Call H) × σ)

/-- A handler is called. -/
def call (msg : Json) (r : Registration H) (c : Client H σ) : Client H σ :=
  { (act msg r.handler c).1.foldl Client.perform c with rest := (act msg r.handler c).2 }

/-- What `handleMessage` has done after `n` turns of its loop. The promise of a request that is
answered calls nobody before it returns.

mirrors packages/mailbox/src/index.js:376-402 (`handleMessage`) -/
def handleMessage (n : Nat) (c : Client H σ) (msg : Json) : Walk (Client H σ) (Registration H) :=
  match answers c msg with
  | some id => ⟨{ c with pendingRequests := c.pendingRequests.erase id }, 0, []⟩
  | none =>
    match handlersOf c msg with
    | some a => go (fun c => c.arrays a) (call act msg) n ⟨c, 0, []⟩
    | none => ⟨c, 0, []⟩

/-- Every handler that is registered when the dispatch begins is called exactly once. -/
def Reaches (c : Client H σ) (msg : Json) : Prop :=
  ∀ a, dispatched c msg = some a → ∀ r ∈ c.arrays a,
    ∃ n, ∀ k, n ≤ k → (handleMessage act k c msg).visited.count r = 1

/-- As the handlers of a dispatch are called one after the other, all of them are registered before
the last is called. -/
def KeepsHandlers (c : Client H σ) (msg : Json) : Prop :=
  ∀ a, dispatched c msg = some a → ∀ before r after, c.arrays a = before ++ r :: after →
    ∀ q ∈ c.arrays a, q ∈ (before.foldl (fun c r => call act msg r c) c).arrays a

variable {act} {c : Client H σ} {a : Nat} {start : List (Registration H)}

theorem perform_edits (h : Known start a c) (k : Call H) :
    Edits start (c.arrays a) ((c.perform k).arrays a) ∧ Known start a (c.perform k) := by
  cases k with
  | on type handler =>
    simp only [Client.perform, Client.on]
    split
    · exact ⟨edits_push h _ handler, known_push h _ handler⟩
    · have hkeep : (c.allocate type).arrays a = c.arrays a := if_neg (Nat.ne_of_lt h.1)
      have hknown := known_allocate h type
      rw [← hkeep]
      exact ⟨edits_push hknown _ handler, known_push hknown _ handler⟩
  | off type handler =>
    simp only [Client.perform, Client.off]
    split
    · rw [arrays_splice]
      split
      · exact ⟨.erase _ (.refl _), h⟩
      · exact ⟨.refl _, h⟩
    · exact ⟨.refl _, h⟩
  | cleanup => exact ⟨.refl _, h⟩
  | request id => exact ⟨.refl _, h⟩

theorem performs_edits (ks : List (Call H)) (h : Known start a c) :
    Edits start (c.arrays a) ((ks.foldl Client.perform c).arrays a) ∧
      Known start a (ks.foldl Client.perform c) := by
  induction ks generalizing c with
  | nil => exact ⟨.refl _, h⟩
  | cons k ks ih =>
    obtain ⟨hedits, hknown⟩ := perform_edits h k
    obtain ⟨hedits', hknown'⟩ := ih hknown
    exact ⟨hedits.trans hedits', hknown'⟩

theorem lawful_call (msg : Json) (start : List (Registration H)) (a : Nat) :
    Lawful (fun c : Client H σ => c.arrays a) (call act msg) start (Known start a) where
  keeps r c h := (performs_edits (act msg r.handler c).1 h).2
  edits r c h := (performs_edits (act msg r.handler c).1 h).1

theorem handleMessage_of_dispatched {msg : Json} (h : dispatched c msg = some a) (n : Nat) :
    handleMessage act n c msg = go (fun c => c.arrays a) (call act msg) n ⟨c, 0, []⟩ := by
  unfold dispatched at h
  unfold handleMessage
  split at h
  · cases h
  · rw [h]

end

/-- **A dispatch reaches every handler** that was registered when it began, exactly once, just when
no handler but the last to be called takes one of them out. -/
theorem reaches_iff {H : Type u} {σ : Type v} [DecidableEq H]
    (act : Json → H → Client H σ → List (Call H) × σ) (c : Client H σ) (msg : Json) :
    Reaches act c msg ↔ KeepsHandlers act c msg := by
  unfold Reaches KeepsHandlers
  refine forall_congr' fun a => forall_congr' fun ha => ?_
  have hlawful : Lawful (fun c : Client H σ => c.arrays a) (call act msg) (c.arrays a)
      (Known (c.arrays a) a) := lawful_call msg (c.arrays a) a
  have hwalk := visited_once_iff hlawful (nodup_arrays c a) (s := c)
    (known_start (allocated_of_dispatched ha)) rfl
  have hvisited : (∀ r ∈ c.arrays a,
      ∃ n, ∀ k, n ≤ k → (handleMessage act k c msg).visited.count r = 1) ↔
      ∀ r ∈ c.arrays a, VisitedOnce (fun c => c.arrays a) (call act msg) c r := by
    simp only [handleMessage_of_dispatched ha, VisitedOnce]
  rw [hvisited, hwalk]
  constructor
  · intro hu before r after hsplit q hq
    have hlt : before.length < (c.arrays a).length := by
      rw [hsplit, List.length_append, List.length_cons]
      omega
    have hkept := hu before.length hlt q hq
    have htake : (c.arrays a).take before.length = before := by
      rw [hsplit]
      exact List.take_left
    rwa [htake] at hkept
  · intro hk n hlt q hq
    have hsplit : c.arrays a =
        (c.arrays a).take n ++ (c.arrays a)[n] :: (c.arrays a).drop (n + 1) := by
      rw [← List.drop_eq_getElem_cons hlt, List.take_append_drop]
    exact hk _ _ _ hsplit q hq

/-! ## Handlers that take themselves out -/

/-- What a function was registered for: by `on` or `onMessage` for good, by `once`, by `claim`, or
by `waitForPhaseWithSide`. -/
inductive Kind
  | plain
  | once (type : String)
  | claimed
  | waitForPhase (phase : String)
  deriving DecidableEq

/-- Functions are told apart by `id`. -/
structure Handler where
  id : Nat
  kind : Kind
  deriving DecidableEq

/-- `msg.key === value` -/
def fieldIs (msg : Json) (key value : String) : Bool :=
  match field msg key with
  | .str s => s = value
  | _ => false

/-- What they do to the client of `side`; the callbacks they end in do nothing to it.

mirrors packages/mailbox/src/index.js:168-175 (`claim`), :240-249 (`onMessage`), :298-304
(`waitForPhaseWithSide`) and :421-427 (`once`) -/
def sourceAct (side : String) (msg : Json) (h : Handler) (_ : Client Handler Unit) :
    List (Call Handler) × Unit :=
  match h.kind with
  | .plain => ([], ())
  | .once type => ([.off type h], ())
  | .claimed => (if fieldIs msg "type" "claimed" then [.off "claimed" h] else [], ())
  | .waitForPhase phase =>
    (if fieldIs msg "side" side then []
      else if fieldIs msg "phase" phase then [.off "message" h] else [], ())

/-- Somebody waits for the phase `pake`, and somebody else listens to all messages. -/
def waitingClient : Client Handler Unit :=
  ((Client.new ()).on "message" ⟨0, .waitForPhase "pake"⟩).on "message" ⟨1, .plain⟩

def pakeMessage : Json :=
  .obj [("type", .str "message"), ("side", .str "b"), ("phase", .str "pake"), ("body", .str "7b7d")]

/-- The second is not called. -/
theorem waiting_phase_skips : ¬Reaches (sourceAct "a") waitingClient pakeMessage := by
  intro h
  have hd : dispatched waitingClient pakeMessage = some 0 := by decide +kernel
  have hmem : (⟨1, ⟨1, .plain⟩⟩ : Registration Handler) ∈ waitingClient.arrays 0 := by
    decide +kernel
  obtain ⟨n, hn⟩ := h 0 hd _ hmem
  have hend : next (fun c => c.arrays 0) (call (sourceAct "a") pakeMessage)
      (handleMessage (sourceAct "a") 1 waitingClient pakeMessage) = none :=
    Option.isNone_iff_eq_none.mp (by decide +kernel)
  have hone := hn (1 + n) (Nat.le_add_left n 1)
  rw [handleMessage_of_dispatched hd, go_add, ← handleMessage_of_dispatched hd,
    go_of_end hend] at hone
  exact absurd hone (by decide +kernel)

/-! ## The walk as `dispatch` -/

section
variable {H : Type} {σ : Type v} [DecidableEq H] (fires : H → Bool) (type : String)

/-- Handlers that take out nothing but themselves, those that `fires` says. -/
def selfRemoving (_ : Json) (h : H) (c : Client H σ) : List (Call H) × σ :=
  (if fires h then [.off type h] else [], c.rest)

variable {fires type} {c : Client H σ} {a : Nat} {before after : List (Registration H)}
  {r : Registration H}

theorem call_stays (msg : Json) (hr : fires r.handler = false) :
    call (selfRemoving fires type) msg r c = c := by
  simp [call, selfRemoving, hr]

/-- The first registration of a function is its only one, when functions are registered once. -/
theorem call_fires (msg : Json) (hr : fires r.handler = true)
    (ha : c.messageHandlers type = some a) (hc : c.arrays a = before ++ r :: after)
    (hn : ((c.arrays a).map Registration.handler).Nodup) :
    (call (selfRemoving fires type) msg r c).arrays a = before ++ after ∧
      (call (selfRemoving fires type) msg r c).messageHandlers = c.messageHandlers := by
  have hcall : call (selfRemoving fires type) msg r c = c.off type r.handler := by
    simp [call, selfRemoving, hr, Client.perform, Client.off, ha, Client.splice]
  have hfirst : (c.arrays a).findIdx (fun q => q.handler = r.handler) = before.length := by
    rw [hc] at hn ⊢
    rw [List.map_append, List.map_cons] at hn
    have hnot : ∀ q ∈ before, decide (q.handler = r.handler) = false := by
      intro q hq
      rw [decide_eq_false_iff_not]
      exact (List.nodup_append.mp hn).2.2 _ (List.mem_map_of_mem hq) _ List.mem_cons_self
    rw [List.findIdx_append, List.findIdx_eq_length_of_false hnot, if_neg (Nat.lt_irrefl _),
      List.findIdx_cons]
    simp
  rw [hcall]
  unfold Client.off
  rw [ha]
  dsimp only
  rw [hfirst, arrays_splice, if_pos rfl, hc]
  refine ⟨?_, rfl⟩
  rw [List.eraseIdx_append_of_length_le (Nat.le_refl _), Nat.sub_self, List.eraseIdx_cons_zero]

/-- From position `before.length` on the walk is that of `MailboxClient`. -/
theorem walk_eq (msg : Json) (ha : c.messageHandlers type = some a)
    (hc : c.arrays a = before ++ after) (hn : ((c.arrays a).map Registration.handler).Nodup)
    {n : Nat} (hle : after.length ≤ n) (visited : List (Registration H)) :
    let w := go (fun c => c.arrays a) (call (selfRemoving fires type) msg) n
      ⟨c, before.length, visited⟩
    let hs := L4.MailboxClient.walk fires false (after.map Registration.handler)
    (w.state.arrays a).map Registration.handler = before.map Registration.handler ++ hs.1 ∧
      w.visited.map Registration.handler = visited.map Registration.handler ++ hs.2 := by
  induction n generalizing c before after visited with
  | zero =>
    have hnil : after = [] := List.length_eq_zero_iff.mp (Nat.le_zero.mp hle)
    subst hnil
    simp [go, hc, L4.MailboxClient.walk]
  | succ n ih =>
    cases after with
    | nil =>
      have hend : next (fun c => c.arrays a) (call (selfRemoving fires type) msg)
          ⟨c, before.length, visited⟩ = none := by
        simp [next, hc]
      rw [go_of_end hend]
      simp [hc, L4.MailboxClient.walk]
    | cons r after =>
      have hle : after.length ≤ n := Nat.le_of_succ_le_succ hle
      have hnext : next (fun c => c.arrays a) (call (selfRemoving fires type) msg)
          ⟨c, before.length, visited⟩ =
          some ⟨call (selfRemoving fires type) msg r c, before.length + 1, visited ++ [r]⟩ := by
        simp [next, hc]
      rw [go, hnext]
      cases hr : fires r.handler with
      | false =>
        have hc' : c.arrays a = (before ++ [r]) ++ after := by
          rw [hc, List.append_assoc]
          rfl
        have hrest := ih ha hc' hn hle (visited ++ [r])
        rw [List.length_append, List.length_singleton] at hrest
        rw [call_stays msg hr, List.map_cons, L4.MailboxClient.walk, if_neg (by simp [hr])]
        simpa using hrest
      | true =>
        obtain ⟨harr, hmap⟩ := call_fires msg hr ha hc hn
        rw [List.map_cons, L4.MailboxClient.walk, if_pos hr]
        cases after with
        | nil =>
          -- The array has closed up, and the position is past its end.
          have hend : next (fun c => c.arrays a) (call (selfRemoving fires type) msg)
              ⟨call (selfRemoving fires type) msg r c, before.length + 1, visited ++ [r]⟩ =
              none := by
            simp [next, harr]
          dsimp only
          rw [go_of_end hend]
          simp [harr, L4.MailboxClient.walk]
        | cons q after =>
          -- `q` is where `r` was, and the position is behind it.
          have hc' : (call (selfRemoving fires type) msg r c).arrays a =
              (before ++ [q]) ++ after := by
            rw [harr, List.append_assoc]
            rfl
          have hn' : (((call (selfRemoving fires type) msg r c).arrays a).map
              Registration.handler).Nodup := by
            rw [harr]
            rw [hc] at hn
            exact hn.sublist (((List.sublist_cons_self r (q :: after)).append_left before).map _)
          have hrest := ih (hmap ▸ ha) hc' hn' (Nat.le_of_succ_le hle) (visited ++ [r])
          rw [List.length_append, List.length_singleton] at hrest
          rw [List.map_cons, L4.MailboxClient.walk]
          simpa using hrest

/-- **Handlers that take out only themselves** are walked as `dispatch` says: the same stay, and the
same are called. -/
theorem dispatch_eq {msg : Json} (ha : c.messageHandlers type = some a)
    (hd : dispatched c msg = some a) (hn : ((c.arrays a).map Registration.handler).Nodup) {n : Nat}
    (hle : (c.arrays a).length ≤ n) :
    let w := handleMessage (selfRemoving fires type) n c msg
    ((w.state.arrays a).map Registration.handler, w.visited.map Registration.handler) =
      L4.MailboxClient.dispatch fires ((c.arrays a).map Registration.handler) := by
  rw [handleMessage_of_dispatched hd]
  have hall : c.arrays a = [] ++ c.arrays a := rfl
  obtain ⟨hstay, hcalled⟩ := walk_eq msg ha hall hn hle []
  exact Prod.ext hstay hcalled

end

end Wormhole.L5.HandlerDispatch
