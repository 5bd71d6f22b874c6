import Mathlib.Tactic.Linarith
import Wormhole.L4App.DailyUsage

/-!
# The daily transfer quota

Any number of clients of one rate limiter, in any order and on one day. Each calls
`check_bandwidth(n)` and, if that raises nothing, transfers `n` bytes and then calls
`record_bytes(n)` with the same caller. The check and the record are critical sections of
their own, and what passed the check is nowhere while it is being transferred.

* `quota_holds`: no more than the quota is recorded on the day, as long as each check that
  the recorded bytes allow is also allowed by what other clients have under way.
* `quota_exceeded`: two transfers of 60 bytes against a quota of 100.
-/
namespace Wormhole.L5.TransferQuota
open Wormhole.L4.Enterprise

/-! ## The clients -/

/-- A client between its check and its record. -/
structure Transfer where
  bytes : Nat
  caller : Caller
  moved : Bool

/-- `recorded` is a ghost: the bytes recorded so far on the day. -/
structure St where
  limiter : RateLimiter
  transfers : List Transfer
  recorded : Nat

inductive Act where
  | check (bytes : Nat) (caller : Caller)
  | transfer (i : Nat)
  | record (i : Nat)

/-- What a client does next. A check that raises is the end of its client. -/
def step (I : IpModule) (today : LocalDate) (s : St) : Act → Option St
  | .check bytes caller =>
    let r := s.limiter.checkBandwidth I bytes caller today
    some { s with
      limiter := r.2
      transfers := if r.1 = none then s.transfers ++ [⟨bytes, caller, false⟩] else s.transfers }
  | .transfer i =>
    match s.transfers[i]? with
    | some t =>
      if t.moved then none
      else some { s with transfers := s.transfers.set i { t with moved := true } }
    | none => none
  | .record i =>
    match s.transfers[i]? with
    | some t =>
      if t.moved then
        some {
          limiter := s.limiter.recordBytes t.bytes t.caller.identity t.caller.sourceIp
          transfers := s.transfers.eraseIdx i
          recorded := s.recorded + t.bytes }
      else none
    | none => none

/-- The day begins: nothing is recorded yet, and the limiter was last reset on another day of
the year, if at all. -/
def Dawn (p : Policy) (today : LocalDate) (s : St) : Prop :=
  s.limiter.policy = p ∧ s.limiter.globalTracker.lastResetDay ≠ today.yday ∧
    s.transfers = [] ∧ s.recorded = 0

def clients (I : IpModule) (p : Policy) (today : LocalDate) : LTS St Act :=
  .ofStep (Dawn p today) (step I today)

theorem dawn_new (I : IpModule) (p : Policy) (start : ℚ) (today : LocalDate) :
    Dawn p today ⟨.new I p start, [], 0⟩ := ⟨rfl, today.yday_ne_zero, rfl, rfl⟩

/-- The bytes of the clients between check and record. -/
def underWay (s : St) : Nat := (s.transfers.map Transfer.bytes).sum

/-! ## What is recorded and what is under way -/

/-- The global counter is what was recorded, and what was recorded and is under way fits. -/
structure Fits (p : Policy) (today : LocalDate) (m : Int) (s : St) : Prop where
  policy : s.limiter.policy = p
  counter : s.limiter.globalTracker.lastResetDay = today.yday →
    s.limiter.globalTracker.bytesToday = s.recorded
  asleep : s.limiter.globalTracker.lastResetDay ≠ today.yday → s.recorded = 0 ∧ s.transfers = []
  within : ((s.recorded + underWay s : Nat) : Int) ≤ m

/-- The check that would pass alone passes together with what is under way. -/
def Reserved (m : Int) (s : St) : Act → Prop
  | .check bytes _ => ((s.recorded + bytes : Nat) : Int) ≤ m →
    ((s.recorded + underWay s + bytes : Nat) : Int) ≤ m
  | _ => True

instance (m : Int) (s : St) (a : Act) : Decidable (Reserved m s a) := by
  cases a <;> unfold Reserved <;> infer_instance

theorem bytes_set {l : List Transfer} {i : Nat} {t u : Transfer} (h : l[i]? = some t)
    (hb : u.bytes = t.bytes) : (l.set i u).map Transfer.bytes = l.map Transfer.bytes := by
  induction l generalizing i with
  | nil => cases h
  | cons v l ih =>
    cases i with
    | zero =>
      cases h
      simp [hb]
    | succ i => simpa using ih (i := i) h

theorem sum_eraseIdx {l : List Transfer} {i : Nat} {t : Transfer} (h : l[i]? = some t) :
    t.bytes + ((l.eraseIdx i).map Transfer.bytes).sum = (l.map Transfer.bytes).sum := by
  induction l generalizing i with
  | nil => cases h
  | cons u l ih =>
    cases i with
    | zero =>
      cases h
      rfl
    | succ i =>
      have hrest := ih (i := i) h
      simp only [List.eraseIdx_cons_succ, List.map_cons, List.sum_cons]
      omega

variable {I : IpModule} {p : Policy} {today : LocalDate} {m : Int} {s t : St}

theorem looked_asleep {k : ConnectionTracker} (h : k.lastResetDay ≠ today.yday) :
    (k.resetIfNeeded today).bytesToday = 0 := by
  have hday := congrArg LazyReset.Counter.value (dayCounter_reset k today)
  have hne : today.yday ≠ (dayCounter k).last := h.symm
  rwa [LazyReset.Counter.look, if_pos hne] at hday

theorem looked_awake {k : ConnectionTracker} (h : k.lastResetDay = today.yday) :
    (k.resetIfNeeded today).bytesToday = k.bytesToday := by
  have hday := congrArg LazyReset.Counter.value (dayCounter_reset k today)
  have heq : ¬ today.yday ≠ (dayCounter k).last := not_not_intro h.symm
  rwa [LazyReset.Counter.look, if_neg heq] at hday

theorem lastResetDay_looked (k : ConnectionTracker) :
    (k.resetIfNeeded today).lastResetDay = today.yday := by
  have hday := congrArg LazyReset.Counter.last (dayCounter_reset k today)
  unfold LazyReset.Counter.look at hday
  split at hday
  · exact hday
  · rename_i h
    exact hday.trans (not_ne_iff.mp h).symm

/-- The tracker a check compares holds what was recorded. -/
theorem Fits.looked (h : Fits p today m s) :
    (s.limiter.globalTracker.resetIfNeeded today).bytesToday = s.recorded := by
  by_cases hd : s.limiter.globalTracker.lastResetDay = today.yday
  · rw [looked_awake hd, h.counter hd]
  · rw [looked_asleep hd, (h.asleep hd).1]

theorem check_tracker (s : RateLimiter) (bytes : Nat) (c : Caller) :
    (s.checkBandwidth I bytes c today).2.globalTracker = s.globalTracker.resetIfNeeded today :=
  globalTracker_check s today bytes c

theorem check_policy (s : RateLimiter) (bytes : Nat) (c : Caller) :
    (s.checkBandwidth I bytes c today).2.policy = s.policy := by
  unfold RateLimiter.checkBandwidth
  dsimp only
  split
  · rfl
  · split <;> rfl

/-- A check that raises nothing has compared the day's bytes with the quota. -/
theorem check_passes {s : RateLimiter} {bytes : Nat} {c : Caller} (hm : 0 < m)
    (hset : (s.policy.getQuotas I c).maxTransferBytesPerDay = some m)
    (h : (s.checkBandwidth I bytes c today).1 = none) :
    (((s.globalTracker.resetIfNeeded today).bytesToday + bytes : Nat) : Int) ≤ m := by
  by_contra hgt
  have hover : RateLimiter.exceeds (some m) (s.globalTracker.resetIfNeeded today).bytesToday bytes =
      true := by
    simp only [RateLimiter.exceeds, truthy, Option.filter_some, ne_eq, hm.ne', not_false_eq_true,
      decide_true, if_true, Option.any_some, decide_eq_true_eq]
    exact not_le.mp hgt
  unfold RateLimiter.checkBandwidth RateLimiter.overGlobal at h
  dsimp only at h
  rw [hset, if_pos hover] at h
  cases h

theorem fits_step (hm : 0 < m) (hset : ∀ c, (p.getQuotas I c).maxTransferBytesPerDay = some m)
    {a : Act} (h : Fits p today m s) (hr : Reserved m s a) (hst : step I today s a = some t) :
    Fits p today m t := by
  cases a with
  | check bytes caller =>
    cases hst
    have hlast : (s.limiter.checkBandwidth I bytes caller today).2.globalTracker.lastResetDay =
        today.yday := by
      rw [check_tracker, lastResetDay_looked]
    refine ⟨(check_policy _ _ _).trans h.policy, fun _ => ?_, fun hd => absurd hlast hd, ?_⟩
    · dsimp only
      rw [check_tracker, h.looked]
    · unfold underWay
      dsimp only
      split
      · rename_i hnone
        have hpass := check_passes hm (by rw [h.policy]; exact hset caller) hnone
        rw [h.looked] at hpass
        have hroom := hr hpass
        unfold underWay at hroom
        rw [List.map_append, List.sum_append]
        simp only [List.map_cons, List.map_nil, List.sum_cons, List.sum_nil]
        omega
      · exact h.within
  | transfer i =>
    simp only [step] at hst
    split at hst
    case h_2 => cases hst
    rename_i u hu
    split at hst
    · cases hst
    · cases hst
      refine ⟨h.policy, h.counter, fun hd => ?_, ?_⟩
      · rw [(h.asleep hd).2] at hu
        cases hu
      · have hsame : (s.transfers.set i { u with moved := true }).map Transfer.bytes =
            s.transfers.map Transfer.bytes := bytes_set hu rfl
        unfold underWay
        rw [hsame]
        exact h.within
  | record i =>
    simp only [step] at hst
    split at hst
    case h_2 => cases hst
    rename_i u hu
    split at hst
    case isFalse => cases hst
    cases hst
    refine ⟨h.policy, fun hd => ?_, fun hd => ?_, ?_⟩
    · have hold := h.counter hd
      simp only [RateLimiter.recordBytes, ConnectionTracker.record, hold]
    · rw [(h.asleep hd).2] at hu
      cases hu
    · have hsum := sum_eraseIdx hu
      have hold := h.within
      unfold underWay at hold ⊢
      dsimp only
      omega

/-- **Headline.** With a quota of `m` bytes a day for everybody, no more than `m` bytes are
recorded on the day, in any interleaving of any number of clients whose checks leave room for
what is under way. -/
theorem quota_holds (I : IpModule) (p : Policy) (today : LocalDate) (m : Int) (hm : 0 < m)
    (hset : ∀ c, (p.getQuotas I c).maxTransferBytesPerDay = some m) (s : St)
    (h : ((clients I p today).restrict (Reserved m)).Reachable s) : (s.recorded : Int) ≤ m := by
  have hI : ((clients I p today).restrict (Reserved m)).Inductive (Fits p today m) := by
    refine ⟨?_, fun s a t h hst => fits_step hm hset h hst.1 hst.2⟩
    rintro s ⟨hpolicy, hday, htransfers, hrecorded⟩
    refine ⟨hpolicy, fun hd => absurd hd hday, fun _ => ⟨hrecorded, htransfers⟩, ?_⟩
    unfold underWay
    rw [hrecorded, htransfers]
    exact hm.le
  have hfits := (hI.reachable s h).within
  omega

/-! ### On fixed calls -/

/-- A hundred bytes a day, for everybody. -/
def hundred : Policy :=
  .ofDefaults .default { QuotaConfig.default with maxTransferBytesPerDay := some 100 }

def anyone : Caller := ⟨none, none, none⟩

def morning : St := ⟨.new noAddresses hundred 0, [], 0⟩

/-- Two transfers of 60 bytes, one after the other. -/
def oneByOne : List Act :=
  [.check 60 anyone, .transfer 0, .record 0, .check 60 anyone]

def afterOneByOne : St :=
  LTS.after (LTS.checked (fun s a => decide (Reserved 100 s a)) (step noAddresses tenthOfMay))
    morning oneByOne

theorem quota_holds_oneByOne :
    (afterOneByOne.recorded : Int) ≤ 100 ∧ afterOneByOne.recorded = 60 := by
  have hexec : LTS.exec (LTS.checked (fun s a => decide (Reserved 100 s a))
      (step noAddresses tenthOfMay)) morning oneByOne = some afterOneByOne :=
    LTS.exec_after (by decide +kernel)
  exact ⟨quota_holds noAddresses hundred tenthOfMay 100 (by decide) (fun _ => rfl) _
    (LTS.restrict_reachable_of_exec (dawn_new noAddresses hundred 0 tenthOfMay)
      (fun _ _ => of_decide_eq_true) hexec), by decide +kernel⟩

/-- Both check before either records. -/
def sideBySide : List Act :=
  [.check 60 anyone, .check 60 anyone, .transfer 0, .transfer 1, .record 0, .record 0]

/-- **The quota is exceeded** by two clients that check before either records. -/
theorem quota_exceeded :
    ∃ s, (clients noAddresses hundred tenthOfMay).Reachable s ∧
      (∀ c, (hundred.getQuotas noAddresses c).maxTransferBytesPerDay = some 100) ∧
      s.recorded = 120 := by
  have hexec : LTS.exec (step noAddresses tenthOfMay) morning sideBySide =
      some (LTS.after (step noAddresses tenthOfMay) morning sideBySide) :=
    LTS.exec_after (by decide +kernel)
  exact ⟨_, LTS.reachable_of_exec (dawn_new noAddresses hundred 0 tenthOfMay) hexec, fun _ => rfl,
    by decide +kernel⟩

end Wormhole.L5.TransferQuota
