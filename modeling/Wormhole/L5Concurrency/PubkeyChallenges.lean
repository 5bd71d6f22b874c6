import Wormhole.Core.LTS
import Wormhole.L4App.Authenticators

/-!
# Public key challenges

One `PubkeyAuthenticator` that any number of clients share. A call of
`get_challenge` replaces the challenge, a call of `authenticate` reads it; neither
waits for anything in between, so a run is a sequence of calls. Challenges do
not repeat, and a signature is good for one challenge.

* `never_mixed_up`: no attempt succeeds for a challenge once a later one has been
  consumed.
* `single_use`: as long as nobody tries to authenticate against a challenge that has
  been consumed, each challenge is good for one success, and so is each signature.
* `signature_replayed`: the challenge is still there after a success, and the same
  signature succeeds again.
-/
namespace Wormhole.L5.PubkeyChallenges
open Wormhole.L1 Wormhole.L4.Wns Wormhole.L4.Enterprise

/-- A successful attempt: the challenge it answered, the key and the signature. -/
structure Success where
  client : Nat
  challenge : Challenge
  publicKey : Bytes
  signature : Bytes
deriving DecidableEq

structure Shared where
  authenticator : PubkeyAuthenticator
  /-- ghost: the challenges before the current one, newest first -/
  earlier : List Challenge
  /-- ghost: the successful attempts, newest first -/
  successes : List Success

inductive Call
  | getChallenge (client : Nat) (urandom : Challenge)
  | authenticate (client : Nat) (credentials : Credentials)
  | reloadKeys (file : Option (List String))

namespace Shared

def challenge (s : Shared) : Challenge := s.authenticator.challenge

/-- Every challenge so far, newest first. -/
def drawn (s : Shared) : List Challenge := s.challenge :: s.earlier

/-- The challenges that were answered, newest first. -/
def consumed (s : Shared) : List Challenge := s.successes.map Success.challenge

def init (file : Option (List String)) (urandom : Challenge) : Shared :=
  ⟨.init file urandom, [], []⟩

/-- `none`: `os.urandom` does not return the same bytes twice. -/
def step (C : Crypto) (s : Shared) : Call → Option Shared
  | .getChallenge _ urandom =>
    if urandom ∈ s.drawn then none
    else some { s with
      authenticator := (s.authenticator.getChallenge urandom).2
      earlier := s.drawn }
  | .authenticate client credentials =>
    match (s.authenticator.authenticate C credentials).success,
      PubkeyAuthenticator.presented credentials with
    | true, some (publicKey, signature) =>
      some { s with successes := ⟨client, s.challenge, publicKey, signature⟩ :: s.successes }
    | _, _ => some s
  | .reloadKeys file => some { s with authenticator := s.authenticator.reloadKeys file }

end Shared

/-- The authenticator among its clients. -/
def system (C : Crypto) : LTS Shared Call :=
  LTS.ofStep (fun s => ∃ file urandom, s = .init file urandom) (Shared.step C)

/-- A signature that verifies for two challenges is a forgery for the one its owner did
not sign. -/
def Unforgeable (C : Crypto) : Prop :=
  ∀ (publicKey signature : Bytes) (c c' : Challenge), C.verify publicKey c.val signature = true →
    C.verify publicKey c'.val signature = true → c = c'

/-- `c` was drawn before `d`. -/
def Before (s : Shared) (c d : Challenge) : Prop := [d, c].Sublist s.drawn

/-- Each challenge is good for one success, an attempt succeeds only before a later challenge
is consumed, and no signature succeeds twice. -/
structure SingleUse (s : Shared) : Prop where
  once : s.consumed.Nodup
  inOrder : s.successes.Pairwise fun later a => ¬ Before s later.challenge a.challenge
  noReplay : (s.successes.map fun a => (a.publicKey, a.signature)).Nodup

/-! ## What a call does -/

/-- The four ways a call changes the state. -/
inductive Called (C : Crypto) (s : Shared) : Call → Shared → Prop
  | drawn (client : Nat) (urandom : Challenge) (h : urandom ∉ s.drawn) :
      Called C s (.getChallenge client urandom)
        { s with
          authenticator := (s.authenticator.getChallenge urandom).2
          earlier := s.drawn }
  | succeeded (client : Nat) (credentials : Credentials) (publicKey signature : Bytes)
      (h : C.verify publicKey s.challenge.val signature = true) :
      Called C s (.authenticate client credentials)
        { s with successes := ⟨client, s.challenge, publicKey, signature⟩ :: s.successes }
  | failed (client : Nat) (credentials : Credentials) :
      Called C s (.authenticate client credentials) s
  | reloaded (file : Option (List String)) :
      Called C s (.reloadKeys file) { s with authenticator := s.authenticator.reloadKeys file }

theorem called {C : Crypto} {s t : Shared} {call : Call} (h : s.step C call = some t) :
    Called C s call t := by
  cases call with
  | getChallenge client urandom =>
    simp only [Shared.step] at h
    split at h
    · cases h
    · rename_i hnew
      cases h
      exact .drawn client urandom hnew
  | authenticate client credentials =>
    simp only [Shared.step] at h
    split at h
    · rename_i publicKey signature hok hpres
      cases h
      obtain ⟨_, k, sig, _, _, hpres', hv⟩ :=
        (PubkeyAuthenticator.authenticate_success_iff C s.authenticator credentials).mp hok
      rw [hpres] at hpres'
      cases hpres'
      exact .succeeded client credentials publicKey signature hv
    · cases h
      exact .failed client credentials
  | reloadKeys file =>
    cases h
    exact .reloaded file

/-! ## In every run -/

/-- What is known of the challenges and of those who answered them. -/
structure Known (C : Crypto) (s : Shared) : Prop where
  fresh : s.drawn.Nodup
  issued : ∀ a ∈ s.successes, a.challenge ∈ s.drawn
  verified : ∀ a ∈ s.successes, C.verify a.publicKey a.challenge.val a.signature = true
  inOrder : s.successes.Pairwise fun later a => ¬ Before s later.challenge a.challenge

/-- The current challenge is the last one, so it was not drawn before another. -/
theorem not_before_of_current {s : Shared} (h : s.drawn.Nodup) (c : Challenge) :
    ¬ Before s s.challenge c := by
  intro hb
  have hnot : s.challenge ∉ s.earlier := (List.nodup_cons.mp h).1
  cases hb with
  | cons _ hsub => exact hnot (hsub.subset (by simp))
  | cons_cons _ hsub => exact hnot (hsub.subset (by simp))

/-- A new challenge changes nothing about the order of the earlier ones. -/
theorem before_of_drawn {s : Shared} {c d urandom : Challenge} (hd : d ∈ s.drawn)
    (hnew : urandom ∉ s.drawn) (h : [d, c].Sublist (urandom :: s.drawn)) : Before s c d := by
  cases h with
  | cons _ hsub => exact hsub
  | cons_cons _ _ => exact absurd hd hnew

theorem known_step {C : Crypto} {s t : Shared} {call : Call} (hI : Known C s)
    (h : s.step C call = some t) : Known C t := by
  cases called h with
  | drawn client urandom hnew =>
    refine ⟨List.nodup_cons.mpr ⟨hnew, hI.fresh⟩, ?_, hI.verified, ?_⟩
    · exact fun a ha => List.mem_cons_of_mem _ (hI.issued a ha)
    · refine List.Pairwise.imp_of_mem ?_ hI.inOrder
      intro later a _ ha hnot hb
      exact hnot (before_of_drawn (hI.issued a ha) hnew hb)
  | succeeded client credentials publicKey signature hv =>
    refine ⟨hI.fresh, ?_, ?_, ?_⟩
    · intro a ha
      rcases List.mem_cons.mp ha with rfl | ha
      · exact List.mem_cons_self
      · exact hI.issued a ha
    · intro a ha
      rcases List.mem_cons.mp ha with rfl | ha
      · exact hv
      · exact hI.verified a ha
    · exact List.pairwise_cons.mpr
        ⟨fun a _ => not_before_of_current hI.fresh a.challenge, hI.inOrder⟩
  | failed => exact hI
  | reloaded => exact ⟨hI.fresh, hI.issued, hI.verified, hI.inOrder⟩

theorem known_reachable {C : Crypto} {s : Shared} (h : (system C).Reachable s) : Known C s := by
  have hI : (system C).Inductive (Known C) := by
    refine ⟨?_, fun _ _ _ hI hs => known_step hI hs⟩
    rintro _ ⟨file, urandom, rfl⟩
    exact ⟨List.nodup_singleton _, (fun _ h => nomatch h), (fun _ h => nomatch h), .nil⟩
  exact hI.reachable s h

/-- **No attempt is taken for a later one.** Once a challenge has been consumed, none that was
drawn before it is answered. -/
theorem never_mixed_up {C : Crypto} {s : Shared} (h : (system C).Reachable s) :
    s.successes.Pairwise fun later a => ¬ Before s later.challenge a.challenge :=
  (known_reachable h).inOrder

/-! ## When each challenge is used once -/

/-- Nobody authenticates against a challenge that was consumed: after a success,
`get_challenge` comes before the next attempt. -/
def Unspent (s : Shared) (call : Call) : Prop :=
  match call with
  | .authenticate _ _ => s.challenge ∉ s.consumed
  | _ => True

theorem once_step {C : Crypto} {s t : Shared} {call : Call} (hC : Unspent s call)
    (h : s.step C call = some t) (hI : s.consumed.Nodup) : t.consumed.Nodup := by
  cases called h with
  | succeeded client credentials publicKey signature _ => exact List.nodup_cons.mpr ⟨hC, hI⟩
  | _ => exact hI

/-- Two successes of one signature would be successes of one challenge. -/
theorem noReplay_of_once {C : Crypto} (hC : Unforgeable C) {s : Shared} (hk : Known C s)
    (h : s.consumed.Nodup) : (s.successes.map fun a => (a.publicKey, a.signature)).Nodup := by
  have hp : s.successes.Pairwise fun a b => a.challenge ≠ b.challenge := List.pairwise_map.mp h
  refine List.pairwise_map.mpr (List.Pairwise.imp_of_mem ?_ hp)
  intro a b ha hb hne heq
  obtain ⟨hkey, hsig⟩ := Prod.mk.inj heq
  have hva := hk.verified a ha
  rw [hkey, hsig] at hva
  exact hne (hC _ _ _ _ hva (hk.verified b hb))

/-- **Challenges are used once**, in every run in which each attempt meets a challenge that
has not been consumed. -/
theorem single_use (C : Crypto) (hC : Unforgeable C) (s : Shared)
    (h : ((system C).restrict Unspent).Reachable s) : SingleUse s := by
  have hk := known_reachable h.of_restrict
  have hI : ((system C).restrict Unspent).Inductive fun s => s.consumed.Nodup := by
    refine ⟨?_, fun _ _ _ hI hs => once_step hs.1 hs.2 hI⟩
    rintro _ ⟨file, urandom, rfl⟩
    exact List.nodup_nil
  have honce := hI.reachable s h
  exact ⟨honce, hk.inOrder, noReplay_of_once hC hk honce⟩

/-! ## The same signature again -/

theorem fit_of_length {n : Nat} {bs : Bytes} (h : bs.length = n) : fit n bs = bs := by
  unfold fit
  rw [List.take_left' h]

theorem unforgeable_sample : Unforgeable .sample := by
  intro publicKey signature c c' h h'
  simp only [Crypto.sample, decide_eq_true_eq] at h h'
  rw [h, List.append_cancel_left_eq, fit_of_length c.property, fit_of_length c'.property] at h'
  exact Subtype.ext h'

def sampleChallenge (b : UInt8) : Challenge := ⟨List.replicate 32 b, List.length_replicate⟩

/-- The key of thirty-two zeros. -/
def sampleKey : String := String.ofList (Base64.b64encode (List.replicate 32 0))

/-- The credentials of the owner of the key who signed a challenge. -/
def signed (b : UInt8) : Credentials where
  publicKey := some sampleKey
  signature := some (String.ofList
    (Base64.b64encode (Crypto.sample.sign [] (sampleChallenge b).val)))

def sampleStart : Shared := .init (some [sampleKey ++ " alice"]) (sampleChallenge 0)

def checkUnspent (s : Shared) : Call → Bool
  | .authenticate _ _ => s.challenge ∉ s.consumed
  | _ => true

theorem unspent_of_check (s : Shared) (call : Call) (h : checkUnspent s call = true) :
    Unspent s call := by
  cases call with
  | authenticate client credentials =>
    have hnot : s.challenge ∉ s.consumed := of_decide_eq_true h
    exact hnot
  | _ => trivial

theorem presented_signed (b : UInt8) : PubkeyAuthenticator.presented (signed b) =
    some (List.replicate 32 0, Crypto.sample.sign [] (sampleChallenge b).val) := by
  have hkey : named (signed b).publicKey = some sampleKey := named_some (by decide)
  have hsig : named (signed b).signature = some (String.ofList
      (Base64.b64encode (Crypto.sample.sign [] (sampleChallenge b).val))) := by
    refine named_some fun h => ?_
    have hlen := congrArg String.toList h
    rw [String.toList_ofList] at hlen
    cases hlen
  unfold PubkeyAuthenticator.presented
  rw [hkey, hsig, Option.bind_some, Option.bind_some, base64Decode_ofList]
  unfold sampleKey
  rw [base64Decode_ofList]

def draw (s : Shared) (b : UInt8) : Shared :=
  { s with
    authenticator := (s.authenticator.getChallenge (sampleChallenge b)).2
    earlier := s.drawn }

def answered (s : Shared) (client : Nat) (b : UInt8) : Shared :=
  { s with successes := ⟨client, s.challenge, List.replicate 32 0,
      Crypto.sample.sign [] (sampleChallenge b).val⟩ :: s.successes }

theorem step_draw {s : Shared} {b : UInt8} (h : sampleChallenge b ∉ s.drawn) (client : Nat) :
    s.step .sample (.getChallenge client (sampleChallenge b)) = some (draw s b) := if_neg h

/-- Who signed the challenge succeeds, and the challenge stays. -/
theorem step_signed {s : Shared} (hk : s.authenticator.authorizedKeys.contains sampleKey = true)
    {b : UInt8} (hc : s.challenge = sampleChallenge b) (client : Nat) :
    s.step .sample (.authenticate client (signed b)) = some (answered s client b) := by
  have hv : Crypto.sample.verify (List.replicate 32 0) s.challenge.val
      (Crypto.sample.sign [] (sampleChallenge b).val) = true := by
    rw [hc]
    exact decide_eq_true rfl
  have hok : (s.authenticator.authenticate .sample (signed b)).success = true :=
    (PubkeyAuthenticator.authenticate_success_iff _ _ _).mpr
      ⟨sampleKey, _, _, named_some (by decide), hk, presented_signed b, hv⟩
  simp only [Shared.step, hok, presented_signed, answered]

theorem sampleStart_keys :
    sampleStart.authenticator.authorizedKeys.contains sampleKey = true := by
  decide +kernel

/-- Two clients, each with a challenge of its own. -/
def twoClients : List Call :=
  [.getChallenge 1 (sampleChallenge 1), .authenticate 1 (signed 1),
    .getChallenge 2 (sampleChallenge 2), .authenticate 2 (signed 2)]

theorem single_use_twoClients :
    ∃ s, ((system .sample).restrict Unspent).Reachable s ∧
      s.consumed = [sampleChallenge 2, sampleChallenge 1] ∧ SingleUse s := by
  have hfirst := step_signed (s := draw sampleStart 1) sampleStart_keys (b := 1) rfl 1
  have hsecond := step_signed (s := draw (answered (draw sampleStart 1) 1 1) 2) sampleStart_keys
    (b := 2) rfl 2
  have hr : ((system .sample).restrict Unspent).Run sampleStart twoClients
      (answered (draw (answered (draw sampleStart 1) 1 1) 2) 2 2) :=
    .cons ⟨trivial, step_draw (by decide) 1⟩ (.cons ⟨unspent_of_check _ _ (by decide), hfirst⟩
      (.cons ⟨trivial, step_draw (s := answered (draw sampleStart 1) 1 1) (by decide) 2⟩
        (.single ⟨unspent_of_check _ _ (by decide), hsecond⟩)))
  have hreach : ((system .sample).restrict Unspent).Reachable _ := ⟨_, _, ⟨_, _, rfl⟩, hr⟩
  exact ⟨_, hreach, rfl, single_use .sample unforgeable_sample _ hreach⟩

/-- What the first client sent is sent once more by a second one. -/
def replayed : List Call :=
  [.getChallenge 1 (sampleChallenge 1), .authenticate 1 (signed 1), .authenticate 2 (signed 1)]

/-- **A signature is replayed.** The challenge is not cleared by a success, so whoever saw the
credentials can send them again until the next call of `get_challenge`. -/
theorem signature_replayed :
    ∃ C, Unforgeable C ∧ ∃ s, (system C).Reachable s ∧
      s.consumed = [sampleChallenge 1, sampleChallenge 1] ∧ ¬ SingleUse s := by
  have hfirst := step_signed (s := draw sampleStart 1) sampleStart_keys (b := 1) rfl 1
  have hagain := step_signed (s := answered (draw sampleStart 1) 1 1) sampleStart_keys (b := 1)
    rfl 2
  have hr : (system .sample).Run sampleStart replayed
      (answered (answered (draw sampleStart 1) 1 1) 2 1) :=
    .cons (step_draw (by decide) 1) (.cons hfirst (.single hagain))
  refine ⟨.sample, unforgeable_sample, _, ⟨_, _, ⟨_, _, rfl⟩, hr⟩, rfl, fun h => ?_⟩
  have honce := h.once
  exact (List.nodup_cons.mp honce).1 List.mem_cons_self

end Wormhole.L5.PubkeyChallenges
