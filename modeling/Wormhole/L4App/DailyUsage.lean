import Mathlib.Tactic.Linarith
import Wormhole.Core.LazyReset
import Wormhole.L4App.RateLimiter

/-!
# Usage by day and by month

What `check_bandwidth` compares with the quotas, against what was recorded on the calendar.

`bytes_today` and `bytes_this_month` are counters that only a check resets, when the day of
the year or the number of the month is not that of the last reset (`Wormhole.LazyReset`); the
tracker of an identity is looked at only by that identity's checks, and only when the global
quotas are not exceeded.

* `counted_iff`: after any history of calls in calendar order, the counters a check compares
  are the bytes recorded on its date and in its month if and only if each tracker's log is
  clear: nothing of the date was recorded before the first of the checks, up to this one,
  that fell on its day of the year, and nothing of another date since; and the same for the
  month.
* `first_day_forgotten`: what is recorded before the first check is reset away by it.
-/
namespace Wormhole.L4.Enterprise
open Wormhole.LazyReset

/-! ## The calendar -/

namespace LocalDate

instance : LE LocalDate :=
  ⟨fun a b => a.year < b.year ∨
    a.year = b.year ∧ (a.month < b.month ∨ a.month = b.month ∧ a.day ≤ b.day)⟩

theorem le_def (a b : LocalDate) : a ≤ b ↔ a.year < b.year ∨
    a.year = b.year ∧ (a.month < b.month ∨ a.month = b.month ∧ a.day ≤ b.day) := Iff.rfl

instance (a b : LocalDate) : Decidable (a ≤ b) := inferInstanceAs (Decidable (_ ∨ _))

instance : Preorder LocalDate where
  le_refl a := by rw [le_def]; omega
  le_trans a b c h h' := by rw [le_def] at *; omega

/-- The calendar month. -/
def yearMonth (d : LocalDate) : Nat × Nat := (d.year, d.month)

theorem date_convex (a b c : LocalDate) (h : a ≤ b) (h' : b ≤ c) (e : a = c) : b = c := by
  subst e
  rw [le_def] at h h'
  cases a
  cases b
  simp only [mk.injEq] at *
  omega

theorem month_convex (a b c : LocalDate) (h : a ≤ b) (h' : b ≤ c)
    (e : a.yearMonth = c.yearMonth) : b.yearMonth = c.yearMonth := by
  rw [le_def] at h h'
  simp only [yearMonth, Prod.mk.injEq] at *
  omega

theorem yday_ne_zero (d : LocalDate) : 0 ≠ d.yday := by
  have := d.day_mem.1
  unfold yday
  omega

theorem month_ne_zero (d : LocalDate) : 0 ≠ d.month := by
  have := d.month_mem.1
  omega

end LocalDate

/-! ## Histories -/

inductive Usage where
  | check (bytes : Nat) (c : Caller)
  | record (bytes : Nat) (identity sourceIp : Option String)

variable (I : IpModule)

def RateLimiter.use (s : RateLimiter) : LocalDate × Usage → RateLimiter
  | (d, .check bytes c) => (s.checkBandwidth I bytes c d).2
  | (_, .record bytes identity sourceIp) => s.recordBytes bytes identity sourceIp

/-- A limiter after a history of calls. -/
def RateLimiter.after (s : RateLimiter) (h : List (LocalDate × Usage)) : RateLimiter :=
  h.foldl (RateLimiter.use I) s

@[simp] theorem after_nil (s : RateLimiter) : s.after I [] = s := rfl

@[simp] theorem after_cons (s : RateLimiter) (e : LocalDate × Usage)
    (h : List (LocalDate × Usage)) : s.after I (e :: h) = (s.use I e).after I h := rfl

/-- The bytes recorded on days, and for whom, as asked. -/
def recorded (day : LocalDate → Bool) (who : Option String → Bool)
    (h : List (LocalDate × Usage)) : Nat :=
  (h.map fun e => match e with
    | (d, .record bytes identity _) => if day d && who identity then bytes else 0
    | _ => 0).sum

/-- The global tracker as the check compares it. -/
def RateLimiter.globalLooked (s : RateLimiter) (today : LocalDate) : RateLimiter :=
  { s with globalTracker := s.globalTracker.resetIfNeeded today }

/-- The check gets as far as the quota of the identity. -/
def Reaches (s : RateLimiter) (bytes : Nat) (c : Caller) (today : LocalDate) (k : String) : Prop :=
  named c.identity = some k ∧
    (s.globalLooked today).overGlobal (s.policy.getQuotas I c) bytes = none

instance (s : RateLimiter) (bytes : Nat) (c : Caller) (today : LocalDate) (k : String) :
    Decidable (Reaches I s bytes c today k) := inferInstanceAs (Decidable (_ ∧ _))

/-- A tracker holds what was recorded on the day and in its month. -/
def Holds (t : ConnectionTracker) (today : LocalDate) (who : Option String → Bool)
    (h : List (LocalDate × Usage)) : Prop :=
  t.bytesToday = recorded (fun d => d = today) who h ∧
    t.bytesThisMonth = recorded (fun d => d.yearMonth = today.yearMonth) who h

/-- What a check compares is what was recorded. -/
structure Counted (p : Policy) (start : ℚ) (h : List (LocalDate × Usage)) (today : LocalDate)
    (bytes : Nat) (c : Caller) : Prop where
  global : Holds (((RateLimiter.new I p start).after I h).globalTracker.resetIfNeeded today) today
    (fun _ => true) h
  identity : ∀ k, Reaches I ((RateLimiter.new I p start).after I h) bytes c today k →
    Holds ((((RateLimiter.new I p start).after I h).identityConnections.at? k).resetIfNeeded today)
      today (fun i => named i = some k) h

/-! ## Logs -/

/-- The log of the global tracker. -/
def globalLog : List (LocalDate × Usage) → List (Entry LocalDate)
  | [] => []
  | (d, .check _ _) :: h => .looked d :: globalLog h
  | (d, .record bytes _ _) :: h => .recorded d bytes :: globalLog h

/-- The log of an identity's tracker. -/
def identityLog (k : String) : RateLimiter → List (LocalDate × Usage) → List (Entry LocalDate)
  | _, [] => []
  | s, (d, .check bytes c) :: h =>
    (if Reaches I s bytes c d k then [.looked d] else []) ++
      identityLog k (s.use I (d, .check bytes c)) h
  | s, (d, .record bytes identity sourceIp) :: h =>
    (if named identity = some k then [.recorded d bytes] else []) ++
      identityLog k (s.use I (d, .record bytes identity sourceIp)) h

/-- Both counters of a tracker with this log are right on the day. -/
structure ClearOn (log : List (Entry LocalDate)) (today : LocalDate) : Prop where
  day : Clear LocalDate.yday id log today
  month : Clear LocalDate.month LocalDate.yearMonth log today

/-! ## Trackers follow their logs -/

def dayCounter (t : ConnectionTracker) : Counter Nat := ⟨t.bytesToday, t.lastResetDay⟩

def monthCounter (t : ConnectionTracker) : Counter Nat := ⟨t.bytesThisMonth, t.lastResetMonth⟩

/-- The tracker's counters are those of the log. -/
structure Logged (t : ConnectionTracker) (log : List (Entry LocalDate)) : Prop where
  day : dayCounter t = run LocalDate.yday 0 log
  month : monthCounter t = run LocalDate.month 0 log

theorem dayCounter_reset (t : ConnectionTracker) (d : LocalDate) :
    dayCounter (t.resetIfNeeded d) = (dayCounter t).look LocalDate.yday d := by
  unfold ConnectionTracker.resetIfNeeded ConnectionTracker.resetMonth ConnectionTracker.resetDay
    dayCounter Counter.look
  dsimp only
  split <;> split <;> rfl

theorem monthCounter_reset (t : ConnectionTracker) (d : LocalDate) :
    monthCounter (t.resetIfNeeded d) = (monthCounter t).look LocalDate.month d := by
  have hday : (t.resetDay d).bytesThisMonth = t.bytesThisMonth ∧
      (t.resetDay d).lastResetMonth = t.lastResetMonth := by
    unfold ConnectionTracker.resetDay
    split <;> exact ⟨rfl, rfl⟩
  unfold ConnectionTracker.resetIfNeeded ConnectionTracker.resetMonth monthCounter Counter.look
  dsimp only
  rw [hday.2]
  split
  · rfl
  · rw [hday.1, hday.2]

variable {I}

theorem Logged.look {t : ConnectionTracker} {log : List (Entry LocalDate)} (h : Logged t log)
    (d : LocalDate) : Logged (t.resetIfNeeded d) (log ++ [.looked d]) := by
  refine ⟨?_, ?_⟩
  · rw [dayCounter_reset, h.day, run_append]
    rfl
  · rw [monthCounter_reset, h.month, run_append]
    rfl

theorem Logged.record {t : ConnectionTracker} {log : List (Entry LocalDate)} (h : Logged t log)
    (d : LocalDate) (bytes : Nat) : Logged (t.record bytes) (log ++ [.recorded d bytes]) := by
  refine ⟨?_, ?_⟩
  · rw [run_append, ← h.day]
    rfl
  · rw [run_append, ← h.month]
    rfl

theorem globalTracker_check (s : RateLimiter) (d : LocalDate) (bytes : Nat) (c : Caller) :
    (s.use I (d, .check bytes c)).globalTracker = s.globalTracker.resetIfNeeded d := by
  unfold RateLimiter.use RateLimiter.checkBandwidth
  dsimp only
  split
  · rfl
  · split <;> rfl

theorem identity_check (s : RateLimiter) (d : LocalDate) (bytes : Nat) (c : Caller) (k : String) :
    (s.use I (d, .check bytes c)).identityConnections.at? k =
      if Reaches I s bytes c d k then (s.identityConnections.at? k).resetIfNeeded d
      else s.identityConnections.at? k := by
  by_cases hr : Reaches I s bytes c d k
  · obtain ⟨hn, e⟩ := hr
    rw [if_pos ⟨hn, e⟩]
    unfold RateLimiter.globalLooked at e
    unfold RateLimiter.use RateLimiter.checkBandwidth
    dsimp only
    rw [e, hn]
    dsimp only
    rw [Trackers.at?_set, if_pos rfl]
  · rw [if_neg hr]
    unfold RateLimiter.use RateLimiter.checkBandwidth
    dsimp only
    split
    · rfl
    · rename_i e
      split
      · rfl
      · rename_i j hn
        have hj : j ≠ k := fun hj => hr ⟨hj ▸ hn, e⟩
        dsimp only
        rw [Trackers.at?_set, if_neg hj]

theorem logged_global (h : List (LocalDate × Usage)) (s : RateLimiter)
    (log : List (Entry LocalDate)) (hl : Logged s.globalTracker log) :
    Logged (s.after I h).globalTracker (log ++ globalLog h) := by
  induction h generalizing s log with
  | nil => simpa [globalLog] using hl
  | cons e h ih =>
    obtain ⟨d, call⟩ := e
    cases call with
    | check bytes c =>
      have hnext := hl.look d
      rw [← globalTracker_check (I := I) s d bytes c] at hnext
      simpa [globalLog] using ih _ _ hnext
    | record bytes identity sourceIp =>
      have hnext : Logged (s.use I (d, .record bytes identity sourceIp)).globalTracker
        (log ++ [.recorded d bytes]) := hl.record d bytes
      simpa [globalLog] using ih _ _ hnext

theorem logged_identity (k : String) (h : List (LocalDate × Usage)) (s : RateLimiter)
    (log : List (Entry LocalDate)) (hl : Logged (s.identityConnections.at? k) log) :
    Logged ((s.after I h).identityConnections.at? k) (log ++ identityLog I k s h) := by
  induction h generalizing s log with
  | nil => simpa [identityLog] using hl
  | cons e h ih =>
    obtain ⟨d, call⟩ := e
    cases call with
    | check bytes c =>
      have hnext : Logged ((s.use I (d, .check bytes c)).identityConnections.at? k)
          (log ++ if Reaches I s bytes c d k then [.looked d] else []) := by
        rw [identity_check]
        split
        · exact hl.look d
        · simpa using hl
      have hrest := ih _ _ hnext
      rw [List.append_assoc] at hrest
      exact hrest
    | record bytes identity sourceIp =>
      have hnext : Logged
          ((s.use I (d, .record bytes identity sourceIp)).identityConnections.at? k)
          (log ++ if named identity = some k then [.recorded d bytes] else []) := by
        unfold RateLimiter.use RateLimiter.recordBytes
        dsimp only
        rw [Trackers.at?_update]
        split
        · exact hl.record d bytes
        · simpa using hl
      have hrest := ih _ _ hnext
      rw [List.append_assoc] at hrest
      exact hrest

/-! ## What the logs record -/

theorem records_globalLog (h : List (LocalDate × Usage)) :
    ((records (globalLog h)).map Prod.fst).Sublist (h.map Prod.fst) := by
  induction h with
  | nil => exact .slnil
  | cons e h ih =>
    obtain ⟨d, call⟩ := e
    cases call with
    | check bytes c => exact ih.cons d
    | record bytes identity sourceIp => exact ih.cons_cons d

theorem total_globalLog {π : Type} [DecidableEq π] (period : LocalDate → π) (today : LocalDate)
    (h : List (LocalDate × Usage)) :
    total period (records (globalLog h)) today =
      recorded (fun d => period d = period today) (fun _ => true) h := by
  induction h with
  | nil => rfl
  | cons e h ih =>
    obtain ⟨d, call⟩ := e
    unfold total sum recorded at ih ⊢
    cases call with
    | check bytes c => simpa [globalLog, records] using ih
    | record bytes identity sourceIp =>
      by_cases hd : period d = period today <;> simp [globalLog, records, hd, ih]

theorem records_identityLog (k : String) (h : List (LocalDate × Usage)) (s : RateLimiter) :
    ((records (identityLog I k s h)).map Prod.fst).Sublist (h.map Prod.fst) := by
  induction h generalizing s with
  | nil => exact .slnil
  | cons e h ih =>
    obtain ⟨d, call⟩ := e
    cases call with
    | check bytes c =>
      unfold identityLog
      split <;> exact (ih _).cons d
    | record bytes identity sourceIp =>
      unfold identityLog
      split
      · exact (ih _).cons_cons d
      · exact (ih _).cons d

theorem total_identityLog {π : Type} [DecidableEq π] (period : LocalDate → π) (today : LocalDate)
    (k : String) (h : List (LocalDate × Usage)) (s : RateLimiter) :
    total period (records (identityLog I k s h)) today =
      recorded (fun d => period d = period today) (fun i => named i = some k) h := by
  induction h generalizing s with
  | nil => rfl
  | cons e h ih =>
    obtain ⟨d, call⟩ := e
    have hrest := ih (s.use I (d, call))
    unfold total sum recorded at hrest ⊢
    cases call with
    | check bytes c =>
      unfold identityLog
      split <;> simpa [records] using hrest
    | record bytes identity sourceIp =>
      unfold identityLog
      by_cases hk : named identity = some k
      · by_cases hd : period d = period today <;> simp [records, hk, hd, hrest]
      · simp [hk, hrest]

/-! ## The headline -/

theorem holds_iff (who : Option String → Bool) {t : ConnectionTracker}
    {log : List (Entry LocalDate)} (hl : Logged t log) {h : List (LocalDate × Usage)}
    {today : LocalDate}
    (hrecords : ((records log).map Prod.fst).Sublist (h.map Prod.fst))
    (hday : total id (records log) today = recorded (fun d => d = today) who h)
    (hmonth : total LocalDate.yearMonth (records log) today =
      recorded (fun d => d.yearMonth = today.yearMonth) who h)
    (hsorted : (h.map Prod.fst ++ [today]).Pairwise (· ≤ ·)) :
    Holds (t.resetIfNeeded today) today who h ↔ ClearOn log today := by
  have hlog : ((records log).map Prod.fst ++ [today]).Pairwise (· ≤ ·) :=
    hsorted.sublist (hrecords.append (.refl [today]))
  have hd := value_eq_total_iff LocalDate.yday id 0 today.yday_ne_zero LocalDate.date_convex hlog
  have hm := value_eq_total_iff LocalDate.month LocalDate.yearMonth 0 today.month_ne_zero
    LocalDate.month_convex hlog
  rw [← hl.day, ← dayCounter_reset, hday] at hd
  rw [← hl.month, ← monthCounter_reset, hmonth] at hm
  exact ⟨fun ⟨hday, hmonth⟩ => ⟨hd.mp hday, hm.mp hmonth⟩,
    fun hc => ⟨hd.mpr hc.day, hm.mpr hc.month⟩⟩

/-- **Headline.** After any history in calendar order, the usage a check compares is what was
recorded on its date and in its month if and only if the logs are clear. -/
theorem counted_iff (I : IpModule) (p : Policy) (start : ℚ) (h : List (LocalDate × Usage))
    (today : LocalDate) (bytes : Nat) (c : Caller)
    (hsorted : (h.map Prod.fst ++ [today]).Pairwise (· ≤ ·)) :
    Counted I p start h today bytes c ↔
      ClearOn (globalLog h) today ∧
        ∀ k, Reaches I ((RateLimiter.new I p start).after I h) bytes c today k →
          ClearOn (identityLog I k (.new I p start) h) today := by
  have hglobal :=
    holds_iff (fun _ => true) (logged_global (I := I) h (.new I p start) [] ⟨rfl, rfl⟩)
    (records_globalLog h) (total_globalLog id today h) (total_globalLog _ today h) hsorted
  have hidentity := fun k => holds_iff (fun i => named i = some k)
    (logged_identity (I := I) k h (.new I p start) [] ⟨rfl, rfl⟩)
    (records_identityLog k h _) (total_identityLog id today k h _)
    (total_identityLog _ today k h _) hsorted
  constructor
  · intro hc
    exact ⟨hglobal.mp hc.global, fun k hk => (hidentity k).mp (hc.identity k hk)⟩
  · rintro ⟨hg, hi⟩
    exact ⟨hglobal.mpr hg, fun k hk => (hidentity k).mpr (hi k hk)⟩

/-! ## The first day -/

def tenthOfMay : LocalDate := ⟨2024, 5, 10, by decide, by decide⟩

/-- A check, then 100 bytes. -/
def checkedFirst : List (LocalDate × Usage) :=
  [(tenthOfMay, .check 100 ⟨some "alice", none, none⟩),
   (tenthOfMay, .record 100 (some "alice") none)]

theorem counted_iff_checkedFirst :
    (Counted noAddresses (.ofDefaults .default .default) 0 checkedFirst tenthOfMay 1
        ⟨some "alice", none, none⟩ ↔
      ClearOn (globalLog checkedFirst) tenthOfMay ∧
        ∀ k, Reaches noAddresses ((RateLimiter.new noAddresses (.ofDefaults .default .default)
            0).after noAddresses checkedFirst) 1 ⟨some "alice", none, none⟩ tenthOfMay k →
          ClearOn (identityLog noAddresses k
            (.new noAddresses (.ofDefaults .default .default) 0) checkedFirst) tenthOfMay) ∧
      ((RateLimiter.new noAddresses (.ofDefaults .default .default) 0).after noAddresses
        checkedFirst).globalTracker.bytesToday = 100 :=
  ⟨counted_iff noAddresses _ 0 checkedFirst tenthOfMay 1 _ (by decide), by decide +kernel⟩

/-- **The first check forgets what was recorded before it.** 100 bytes on the 10th of May, and
the check later that day compares 0. -/
theorem first_day_forgotten :
    ¬ Counted noAddresses (.ofDefaults .default .default) 0
        [(tenthOfMay, .record 100 none none)] tenthOfMay 1 ⟨none, none, none⟩ ∧
      recorded (fun d => d = tenthOfMay) (fun _ => true)
        [(tenthOfMay, .record 100 none none)] = 100 := by
  refine ⟨fun h => ?_, rfl⟩
  have hday := h.global.1
  revert hday
  decide +kernel

end Wormhole.L4.Enterprise
