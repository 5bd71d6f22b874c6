import Wormhole.L4App.MailboxRequests

/-!
# How a wormhole opens its mailbox (`packages/protocol/src/index.js`)

The initiator calls `allocate`, gives the code away and calls `waitForPeer`; the
receiver calls `connect` with the code. `Stage` is the promise that the call
under way awaits. When it settles, `resume` goes on to the next one; `sent` is
what goes out on the socket meanwhile. After the mailbox is open the key
exchange begins; of it only the requests are modelled (`addMessage`).

`String(x)` is a parameter for values other than strings.

* `parseCode_generateCode`: a code names the nameplate it was made for.
-/
namespace Wormhole.L4.WormholeOpening
open Wormhole.L1 Wormhole.L4.MailboxClient Wormhole.L4.MailboxRequests

set_option linter.dupNamespace false

/-! ## Codes -/

/-- mirrors packages/mailbox/src/index.js:512-517 (`generateCode`) -/
def wordList : List String :=
  ["alpha", "beta", "gamma", "delta", "echo", "foxtrot", "golf", "hotel",
   "india", "juliet", "kilo", "lima", "mike", "november", "oscar", "papa",
   "quebec", "romeo", "sierra", "tango", "uniform", "victor", "whiskey", "xray",
   "yankee", "zulu", "guitar", "sunset", "castle", "thunder", "river", "mountain"]

/-- What `Math.random` can select.

mirrors packages/mailbox/src/index.js:519-523 (`generateCode`) -/
def selectable (numWords : Nat) (words : List String) : Bool :=
  words.length = numWords && words.all fun word => wordList.contains word

/-- mirrors packages/mailbox/src/index.js:525 (`generateCode`) -/
def generateCode (nameplate : String) (words : List String) : String :=
  nameplate ++ "-" ++ "-".intercalate words

/-- `s.split('-')`. -/
def splitDashes (s : String) : List String := (s.toList.splitOn '-').map String.ofList

/-- The nameplate and the password; `none` is the `Error`.

mirrors packages/mailbox/src/index.js:491-501 -/
def parseCode (code : String) : Option (String × String) :=
  match splitDashes code with
  | nameplate :: rest => if rest.length < 2 then none else some (nameplate, "-".intercalate rest)
  | [] => none

theorem parseCode_generateCode {nameplate nameplate' password : String} {words : List String}
    (hn : '-' ∉ nameplate.toList)
    (h : parseCode (generateCode nameplate words) = some (nameplate', password)) :
    nameplate' = nameplate := by
  have hs : (generateCode nameplate words).toList =
      nameplate.toList ++ '-' :: ("-".intercalate words).toList := by
    simp [generateCode]
  have hp : splitDashes (generateCode nameplate words) =
      nameplate :: splitDashes ("-".intercalate words) := by
    unfold splitDashes
    rw [hs, List.splitOn_eq_splitOnP, List.splitOnP_append_cons_of_forall_mem _ _ (by simp),
      ← List.splitOn_eq_splitOnP, List.map_cons, String.ofList_toList]
    intro c hc
    rw [beq_eq_false_iff_ne]
    intro hd
    exact hn (hd ▸ hc)
  unfold parseCode at h
  rw [hp] at h
  dsimp only at h
  split at h
  · cases h
  · cases h
    rfl

theorem dash_not_mem_toString (n : Nat) : '-' ∉ (toString n).toList := by
  intro h
  have hd : '-' ∈ Nat.toDigits 10 n := by
    rw [← Nat.toList_repr]
    exact h
  exact absurd (Nat.isDigit_of_mem_toDigits (by decide) (by decide) hd) (by decide)

/-- The code of the mailbox client's own documentation. -/
example : parseCode (generateCode "7" ["guitar", "sunset"]) = some ("7", "guitar-sunset") := by
  decide +kernel

/-! ## Opening -/

/-- What the call under way awaits: the welcome of the relay, or the call of the
mailbox client with this id. `waiting` is between `allocate` and `waitForPeer`. -/
inductive Stage
  | created
  | connecting
  | allocating (id : String)
  | waiting
  | claiming (id : String)
  | opening (id : String)
  | exchanging
  | failed

structure Wormhole where
  isInitiator : Bool
  numWords : Nat
  code : Option String
  stage : Stage
  mailbox : Client

def Wormhole.new (appId side : String) : Wormhole :=
  ⟨false, 0, none, .created, .new appId side⟩

/-- mirrors packages/protocol/src/index.js:81-88 (`allocate`) -/
def Wormhole.allocate (w : Wormhole) (numWords : Nat) : Wormhole :=
  { w with
    isInitiator := true
    numWords := numWords
    stage := .connecting
    mailbox := w.mailbox.connect }

/-- mirrors packages/protocol/src/index.js:107-118 (`connect`) -/
def Wormhole.connect (w : Wormhole) (code : String) : Wormhole :=
  match parseCode code with
  | some _ => { w with code := some code, stage := .connecting, mailbox := w.mailbox.connect }
  | none => { w with code := some code, stage := .failed }

/-- Calls the mailbox client and awaits it; what it throws is caught. -/
def Wormhole.await (w : Wormhole) (api : Api) (stage : String → Stage) : Wormhole × List Json :=
  match w.mailbox.call api with
  | .ok (c, sent) => ({ w with mailbox := c, stage := stage w.mailbox.nextId }, sent.toList)
  | .error _ => ({ w with stage := .failed }, [])

/-- mirrors packages/protocol/src/index.js:137-144 -/
def Wormhole.waitForPeer (w : Wormhole) : Wormhole × List Json :=
  w.await (.openMailbox .null) .opening

/-- `${x}`. -/
def template (str : Json → String) : Json → String
  | .str s => s
  | x => str x

/-- What a call goes on with when the promise it awaits has settled; `words` are
those `generateCode` selects.

mirrors packages/protocol/src/index.js:88-99 (`allocate`), :118-130 (`connect`)
and :144-151 (`waitForPeer`) -/
def Wormhole.resume (str : Json → String) (words : List String) (w : Wormhole) :
    Wormhole × List Json :=
  match w.stage with
  | .connecting =>
    match w.mailbox.connection with
    | .pending => (w, [])
    | .resolved _ =>
      if w.isInitiator then w.await .allocate .allocating
      else match w.code.bind parseCode with
        | some (nameplate, _) => w.await (.claim nameplate) .claiming
        | none => ({ w with stage := .failed }, [])
    | _ => ({ w with stage := .failed }, [])
  | .allocating id =>
    match (w.mailbox.find id).bind Call.result with
    | none => (w, [])
    | some (.ok nameplate) =>
      ({ w with code := some (generateCode (template str nameplate) words), stage := .waiting }, [])
    | some (.error _) => ({ w with stage := .failed }, [])
  | .claiming id =>
    match (w.mailbox.find id).bind Call.result with
    | none => (w, [])
    | some (.ok claimResponse) =>
      w.await (.openMailbox (field claimResponse "mailbox")) .opening
    | some (.error _) => ({ w with stage := .failed }, [])
  | .opening id =>
    match (w.mailbox.find id).bind Call.result with
    | none => (w, [])
    | some (.ok _) => ({ w with stage := .exchanging }, [])
    | some (.error _) => ({ w with stage := .failed }, [])
  | _ => (w, [])

/-- A message comes in. -/
def Wormhole.receive (str : Json → String) (words : List String) (msg : Json) (w : Wormhole) :
    Wormhole × List Json :=
  { w with mailbox := w.mailbox.handleMessage msg }.resume str words

section
variable {str : Json → String} {words : List String} {w : Wormhole} {id : String}

/-- Between two calls, and once the mailbox is open, nothing is resumed here. -/
theorem resume_rest (h : w.stage = .created ∨ w.stage = .waiting ∨ w.stage = .exchanging ∨
    w.stage = .failed) : w.resume str words = (w, []) := by
  unfold Wormhole.resume
  rcases h with h | h | h | h
  · rw [h]
  · rw [h]
  · rw [h]
  · rw [h]

theorem resume_connecting (h : w.stage = .connecting) :
    w.resume str words = match w.mailbox.connection with
      | .pending => (w, [])
      | .resolved _ =>
        if w.isInitiator then w.await .allocate .allocating
        else match w.code.bind parseCode with
          | some (nameplate, _) => w.await (.claim nameplate) .claiming
          | none => ({ w with stage := .failed }, [])
      | _ => ({ w with stage := .failed }, []) := by
  unfold Wormhole.resume
  rw [h]

theorem resume_allocating (h : w.stage = .allocating id) :
    w.resume str words = match (w.mailbox.find id).bind Call.result with
      | none => (w, [])
      | some (.ok nameplate) =>
        ({ w with
            code := some (generateCode (template str nameplate) words)
            stage := .waiting }, [])
      | some (.error _) => ({ w with stage := .failed }, []) := by
  unfold Wormhole.resume
  rw [h]

theorem resume_claiming (h : w.stage = .claiming id) :
    w.resume str words = match (w.mailbox.find id).bind Call.result with
      | none => (w, [])
      | some (.ok claimResponse) =>
        w.await (.openMailbox (field claimResponse "mailbox")) .opening
      | some (.error _) => ({ w with stage := .failed }, []) := by
  unfold Wormhole.resume
  rw [h]

theorem resume_opening (h : w.stage = .opening id) :
    w.resume str words = match (w.mailbox.find id).bind Call.result with
      | none => (w, [])
      | some (.ok _) => ({ w with stage := .exchanging }, [])
      | some (.error _) => ({ w with stage := .failed }, []) := by
  unfold Wormhole.resume
  rw [h]

end

end Wormhole.L4.WormholeOpening
