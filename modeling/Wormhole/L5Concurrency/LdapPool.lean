import Wormhole.Core.Dict
import Wormhole.Core.LTS

/-!
# The LDAP connection pool

`LDAPConnectionPool` of `src/wh/enterprise/ldap_client.py`: any number of `acquire` blocks at a
time, each with a permit of the semaphore, and the connections they take from the pool, make
anew and give back. Nothing is awaited for under the lock, so a block finds it free and
what is done under it is one step. A connection may be lost, pooled or in use; the pool is
closed once, when no block is left.

What is there to return a connection stands after the `yield` and not in the `finally`: a body
that raises gives the permit back and not the connection.

* `inv_reachable`: no connection is in two places, and the pool holds at most `pool_size`.
* `never_leaked_iff`: no connection is leaked exactly when every body that raises leaves its
  connection unbound.
-/
namespace Wormhole.L5.LdapPool

/-! ## Blocks -/

/-- Where a block is. It has a permit in each of them. -/
inductive Phase
  /-- Before it has a connection. -/
  | entered
  | body (conn : Nat)
  /-- The body has returned. -/
  | returned (conn : Nat)
deriving DecidableEq

def Phase.conn : Phase → Option Nat
  | .entered => none
  | .body c => some c
  | .returned c => some c

/-- The connections are numbered as they are made. -/
structure Pool where
  available : Nat
  /-- `_pool`, the next to be popped in front. -/
  pool : List Nat
  blocks : Dict Nat Phase
  created : Nat
  unbound : List Nat
  closed : Bool

inductive Event
  /-- A block gets its permit. -/
  | enter (block : Nat)
  /-- It takes a connection; `creates` says whether one can be made when one is needed. -/
  | take (block : Nat) (creates : Bool)
  | returns (block : Nat)
  | raises (block : Nat)
  | giveBack (block : Nat)
  /-- The server drops a connection, or a body unbinds it. -/
  | lose (conn : Nat)
  | close
deriving DecidableEq

namespace Pool

/-- mirrors src/wh/enterprise/ldap_client.py:55-60 -/
def init (size : Nat) : Pool where
  available := size
  pool := []
  blocks := Dict.empty
  created := 0
  unbound := []
  closed := false

/-- The `finally`. -/
def release (s : Pool) (block : Nat) : Pool :=
  { s with available := s.available + 1, blocks := s.blocks.del block }

/-- A connection is made for the block, or the block ends.
mirrors src/wh/enterprise/ldap_client.py:75-99 -/
def create (s : Pool) (block : Nat) (creates : Bool) : Pool :=
  if creates then
    { s with blocks := s.blocks.set block (.body s.created), created := s.created + 1 }
  else s.release block

/-- mirrors src/wh/enterprise/ldap_client.py:107-114 -/
def take (s : Pool) (block : Nat) (creates : Bool) : Pool :=
  match s.pool with
  | c :: rest =>
    if c ∈ s.unbound then { s with pool := rest }.create block creates
    else { s with pool := rest, blocks := s.blocks.set block (.body c) }
  | [] => s.create block creates

/-- mirrors src/wh/enterprise/ldap_client.py:118-125 -/
def giveBack (size : Nat) (s : Pool) (block conn : Nat) : Pool :=
  if s.pool.length < size then { s with pool := conn :: s.pool }.release block
  else { s with unbound := conn :: s.unbound }.release block

/-- mirrors src/wh/enterprise/ldap_client.py:127-136 -/
def close (s : Pool) : Pool :=
  { s with unbound := s.pool ++ s.unbound, pool := [], closed := true }

def step (size : Nat) (s : Pool) : Event → Option Pool
  | .enter b =>
    if s.closed = false ∧ 0 < s.available ∧ s.blocks.get? b = none then
      some { s with available := s.available - 1, blocks := s.blocks.set b .entered }
    else none
  | .take b creates =>
    match s.blocks.get? b with
    | some .entered => some (s.take b creates)
    | _ => none
  | .returns b =>
    match s.blocks.get? b with
    | some (.body c) => some { s with blocks := s.blocks.set b (.returned c) }
    | _ => none
  | .raises b =>
    match s.blocks.get? b with
    | some (.body _) => some (s.release b)
    | _ => none
  | .giveBack b =>
    match s.blocks.get? b with
    | some (.returned c) => some (s.giveBack size b c)
    | _ => none
  | .lose c => if c < s.created then some { s with unbound := c :: s.unbound } else none
  | .close => if s.closed = false ∧ s.blocks.entries.isEmpty then some s.close else none

end Pool

def system (size : Nat) : LTS Pool Event := .ofStep (· = .init size) (Pool.step size)

/-! ## No connection is leaked -/

/-- Block `b` has connection `c`. -/
def Pool.Uses (s : Pool) (b c : Nat) : Prop :=
  ∃ p, s.blocks.get? b = some p ∧ p.conn = some c

/-- A connection is in one place at most, and the pool within its size. -/
structure Inv (size : Nat) (s : Pool) : Prop where
  pooled : s.pool.Nodup
  apart : ∀ b c, s.Uses b c → c ∉ s.pool
  once : ∀ b b' c, s.Uses b c → s.Uses b' c → b = b'
  bounded : s.pool.length ≤ size
  knownPool : ∀ c ∈ s.pool, c < s.created
  knownUse : ∀ b c, s.Uses b c → c < s.created
  ended : s.closed = true → s.pool = [] ∧ ∀ b, s.blocks.get? b = none

/-- Every connection that was made is pooled, in use, or unbound. -/
def Pool.Kept (s : Pool) : Prop :=
  ∀ c < s.created, c ∈ s.pool ∨ (∃ b, s.Uses b c) ∨ c ∈ s.unbound

/-- What the pool is for: every connection is in one place or unbound, there are no more than
`size` in the pool, and none is bound after the pool was closed. -/
structure Conserved (size : Nat) (s : Pool) : Prop where
  kept : s.Kept
  pooled : s.pool.Nodup
  apart : ∀ b c, s.Uses b c → c ∉ s.pool
  once : ∀ b b' c, s.Uses b c → s.Uses b' c → b = b'
  bounded : s.pool.length ≤ size
  unbound : s.closed = true → ∀ c < s.created, c ∈ s.unbound

/-- A body that raises leaves its connection unbound. -/
def Meets (s : Pool) : Event → Prop
  | .raises b => ∀ c, s.Uses b c → c ∈ s.unbound
  | _ => True

theorem conserved_iff {size : Nat} {s : Pool} (h : Inv size s) :
    Conserved size s ↔ s.Kept := by
  constructor
  · exact fun hc => hc.kept
  · intro hk
    refine ⟨hk, h.pooled, h.apart, h.once, h.bounded, ?_⟩
    intro hclosed c hc
    obtain ⟨hpool, hblocks⟩ := h.ended hclosed
    rcases hk c hc with hp | ⟨b, p, hb, _⟩ | hu
    · rw [hpool] at hp
      cases hp
    · rw [hblocks] at hb
      cases hb
    · exact hu

/-! ## Steps -/

section Uses

variable {s : Pool} {b b' c : Nat}

theorem uses_of_get? {p : Phase} (h : s.blocks.get? b = some p) :
    s.Uses b c ↔ p.conn = some c := by
  unfold Pool.Uses
  rw [h]
  simp

theorem not_uses_of_none (h : s.blocks.get? b = none) : ¬s.Uses b c := by
  rintro ⟨p, hp, _⟩
  rw [h] at hp
  cases hp

/-- A block has one connection. -/
theorem uses_unique {d : Nat} (h : s.Uses b c) (h' : s.Uses b d) : c = d := by
  obtain ⟨p, hp, hc⟩ := h
  rw [uses_of_get? hp, hc] at h'
  exact Option.some.inj h'

end Uses

/-- The blocks of `t` are those of `s`, with `b` in phase `p` or gone. -/
def Moves (s t : Pool) (b : Nat) (p : Option Phase) : Prop :=
  ∀ b', t.blocks.get? b' = if b = b' then p else s.blocks.get? b'

theorem moves_set {s t : Pool} {b : Nat} {p : Phase} (h : t.blocks = s.blocks.set b p) :
    Moves s t b (some p) := by
  intro b'
  rw [h, Dict.get?_set]

theorem moves_del {s t : Pool} {b : Nat} (h : t.blocks = s.blocks.del b) : Moves s t b none := by
  intro b'
  rw [h, Dict.get?_del]

theorem Moves.uses {s t : Pool} {b : Nat} {p : Option Phase} (h : Moves s t b p) {b' c : Nat} :
    t.Uses b' c ↔ if b = b' then p.bind Phase.conn = some c else s.Uses b' c := by
  unfold Pool.Uses
  rw [h b']
  split
  · cases p <;> simp
  · rfl

section Steps

variable {size : Nat} {s t : Pool} {b : Nat}

theorem open_of_block (h : Inv size s) {p : Phase} (hb : s.blocks.get? b = some p) :
    s.closed = false := by
  cases hc : s.closed with
  | false => rfl
  | true =>
    rw [(h.ended hc).2 b] at hb
    cases hb

/-- A block moves on with the connection it has, or without one as before. -/
theorem same_places {p : Option Phase} (h : Inv size s) (hm : Moves s t b p)
    (hconn : ∀ c, p.bind Phase.conn = some c ↔ s.Uses b c) (hpool : t.pool = s.pool)
    (hcreated : t.created = s.created) (hunbound : t.unbound = s.unbound)
    (hclosed : t.closed = false) : Inv size t ∧ (t.Kept ↔ s.Kept) := by
  have hu : ∀ b' c, t.Uses b' c ↔ s.Uses b' c := by
    intro b' c
    rw [hm.uses]
    split
    · rename_i hb
      exact hb ▸ hconn c
    · rfl
  constructor
  · refine ⟨hpool ▸ h.pooled, ?_, ?_, hpool ▸ h.bounded, ?_, ?_, ?_⟩
    · intro b' c hc
      rw [hpool]
      exact h.apart b' c ((hu b' c).mp hc)
    · intro b₁ b₂ c h₁ h₂
      exact h.once b₁ b₂ c ((hu b₁ c).mp h₁) ((hu b₂ c).mp h₂)
    · rw [hpool, hcreated]
      exact h.knownPool
    · intro b' c hc
      rw [hcreated]
      exact h.knownUse b' c ((hu b' c).mp hc)
    · intro hc
      rw [hclosed] at hc
      cases hc
  · unfold Pool.Kept
    simp only [hpool, hcreated, hunbound, hu]

/-- A connection goes to a block that has none, from the pool or newly made. -/
structure Given (size : Nat) (s t : Pool) (b c : Nat) : Prop where
  moves : Moves s t b (some (.body c))
  entered : s.blocks.get? b = some .entered
  pool : ∀ d, d ∈ s.pool ↔ d ∈ t.pool ∨ d = c ∧ c ∈ s.pool
  nodup : t.pool.Nodup
  taken : c ∉ t.pool
  free : ∀ b', ¬s.Uses b' c
  bounded : t.pool.length ≤ size
  created : s.created ≤ t.created
  known : c < t.created
  fresh : ∀ d < t.created, d = c ∨ d < s.created
  unbound : t.unbound = s.unbound
  isOpen : t.closed = false

theorem Given.uses {c : Nat} (hg : Given size s t b c) (b' d : Nat) :
    t.Uses b' d ↔ (b = b' ∧ d = c) ∨ (b ≠ b' ∧ s.Uses b' d) := by
  rw [hg.moves.uses]
  by_cases hbb : b = b'
  · simp [hbb, Phase.conn, eq_comm]
  · simp [hbb]

theorem Given.inv {c : Nat} (hg : Given size s t b c) (h : Inv size s) : Inv size t := by
  refine ⟨hg.nodup, ?_, ?_, hg.bounded, ?_, ?_, ?_⟩
  · intro b' d hd hmem
    rcases (hg.uses b' d).mp hd with ⟨_, rfl⟩ | ⟨_, hs⟩
    · exact hg.taken hmem
    · exact h.apart b' d hs ((hg.pool d).mpr (.inl hmem))
  · intro b₁ b₂ d h₁ h₂
    rcases (hg.uses b₁ d).mp h₁ with ⟨rfl, rfl⟩ | ⟨_, hs₁⟩
    · rcases (hg.uses b₂ d).mp h₂ with ⟨rfl, _⟩ | ⟨_, hs₂⟩
      · rfl
      · exact absurd hs₂ (hg.free b₂)
    · rcases (hg.uses b₂ d).mp h₂ with ⟨rfl, rfl⟩ | ⟨_, hs₂⟩
      · exact absurd hs₁ (hg.free b₁)
      · exact h.once b₁ b₂ d hs₁ hs₂
  · intro d hd
    exact (h.knownPool d ((hg.pool d).mpr (.inl hd))).trans_le hg.created
  · intro b' d hd
    rcases (hg.uses b' d).mp hd with ⟨_, rfl⟩ | ⟨_, hs⟩
    · exact hg.known
    · exact (h.knownUse b' d hs).trans_le hg.created
  · intro hclose
    rw [hg.isOpen] at hclose
    cases hclose

theorem Given.kept {c : Nat} (hg : Given size s t b c) (hk : s.Kept) : t.Kept := by
  intro d hd
  by_cases hdc : d = c
  · exact .inr (.inl ⟨b, (hg.uses b d).mpr (.inl ⟨rfl, hdc⟩)⟩)
  · rcases hk d ((hg.fresh d hd).resolve_left hdc) with hp | ⟨b', hs⟩ | hun
    · rcases (hg.pool d).mp hp with hp | ⟨hd', _⟩
      · exact .inl hp
      · exact absurd hd' hdc
    · have hbb : b ≠ b' := by
        rintro rfl
        rw [uses_of_get? hg.entered] at hs
        cases hs
      exact .inr (.inl ⟨b', (hg.uses b' d).mpr (.inr ⟨hbb, hs⟩)⟩)
    · exact .inr (.inr (hg.unbound ▸ hun))

/-- A block ends, and its connection goes to the pool, is unbound, or is left where it is. -/
structure Ended (size : Nat) (s t : Pool) (b c : Nat) : Prop where
  moves : Moves s t b none
  used : s.Uses b c
  pool : t.pool = s.pool ∨ t.pool = c :: s.pool
  bounded : t.pool.length ≤ size
  created : t.created = s.created
  isOpen : t.closed = false
  unbound : t.unbound = s.unbound ∨ t.unbound = c :: s.unbound

theorem Ended.uses {c : Nat} (he : Ended size s t b c) (b' d : Nat) :
    t.Uses b' d ↔ b ≠ b' ∧ s.Uses b' d := by
  rw [he.moves.uses]
  by_cases hbb : b = b' <;> simp [hbb]

/-- A list with an element put in front, or as it was. -/
theorem mem_grown {c d : Nat} {xs ys : List Nat} (h : ys = xs ∨ ys = c :: xs) :
    (d ∈ xs → d ∈ ys) ∧ (d ∈ ys → d ∈ xs ∨ d = c) := by
  rcases h with rfl | rfl
  · exact ⟨id, .inl⟩
  · exact ⟨List.mem_cons_of_mem _, fun hd => (List.mem_cons.mp hd).symm⟩

theorem Ended.inv {c : Nat} (he : Ended size s t b c) (h : Inv size s) : Inv size t := by
  refine ⟨?_, ?_, ?_, he.bounded, ?_, ?_, ?_⟩
  · rcases he.pool with hp | hp
    · exact hp ▸ h.pooled
    · rw [hp]
      exact List.nodup_cons.mpr ⟨h.apart b c he.used, h.pooled⟩
  · intro b' d hd hdm
    obtain ⟨hbb, hs⟩ := (he.uses b' d).mp hd
    rcases (mem_grown he.pool).2 hdm with hp | rfl
    · exact h.apart b' d hs hp
    · exact hbb (h.once b b' d he.used hs)
  · intro b₁ b₂ d h₁ h₂
    exact h.once b₁ b₂ d ((he.uses b₁ d).mp h₁).2 ((he.uses b₂ d).mp h₂).2
  · intro d hd
    rw [he.created]
    rcases (mem_grown he.pool).2 hd with hp | rfl
    · exact h.knownPool d hp
    · exact h.knownUse b d he.used
  · intro b' d hd
    rw [he.created]
    exact h.knownUse b' d ((he.uses b' d).mp hd).2
  · intro hclose
    rw [he.isOpen] at hclose
    cases hclose

/-- Its own connection is the only one that the end of a block can lose. -/
theorem Ended.kept_iff {c : Nat} (he : Ended size s t b c) (h : Inv size s) (hk : s.Kept) :
    t.Kept ↔ c ∈ t.pool ∨ c ∈ t.unbound := by
  constructor
  · intro hkt
    rcases hkt c (he.created ▸ h.knownUse b c he.used) with hp | ⟨b', hs⟩ | hun
    · exact .inl hp
    · obtain ⟨hbb, hs⟩ := (he.uses b' c).mp hs
      exact absurd (h.once b b' c he.used hs) hbb
    · exact .inr hun
  · intro hcond d hd
    by_cases hdc : d = c
    · subst hdc
      exact hcond.imp_right .inr
    · rcases hk d (he.created ▸ hd) with hp | ⟨b', hs⟩ | hun
      · exact .inl ((mem_grown he.pool).1 hp)
      · have hbb : b ≠ b' := by
          rintro rfl
          exact hdc (uses_unique hs he.used)
        exact .inr (.inl ⟨b', (he.uses b' d).mpr ⟨hbb, hs⟩⟩)
      · exact .inr (.inr ((mem_grown he.unbound).1 hun))

theorem create_step (h : Inv size s) (hb : s.blocks.get? b = some .entered) (creates : Bool) :
    Inv size (s.create b creates) ∧ (s.Kept → (s.create b creates).Kept) := by
  have hopen := open_of_block h hb
  have hfree : ∀ b', ¬s.Uses b' s.created := fun b' hu => Nat.lt_irrefl _ (h.knownUse b' _ hu)
  have hnot : s.created ∉ s.pool := fun hp => Nat.lt_irrefl _ (h.knownPool _ hp)
  cases creates with
  | true =>
    have hg : Given size s (s.create b true) b s.created := by
      refine ⟨moves_set rfl, hb, ?_, h.pooled, hnot, hfree, h.bounded, Nat.le_succ _,
        Nat.lt_succ_self _, ?_, rfl, hopen⟩
      · intro d
        change d ∈ s.pool ↔ d ∈ s.pool ∨ d = s.created ∧ s.created ∈ s.pool
        simp [hnot]
      · intro d hd
        exact (Nat.lt_succ_iff_lt_or_eq.mp hd).symm
    exact ⟨hg.inv h, hg.kept⟩
  | false =>
    have hm : Moves s (s.create b false) b none := moves_del rfl
    have hsame := same_places h hm (by simp [uses_of_get? hb, Phase.conn]) rfl rfl rfl hopen
    exact ⟨hsame.1, hsame.2.mpr⟩

theorem take_step (h : Inv size s) (hb : s.blocks.get? b = some .entered) (creates : Bool) :
    Inv size (s.take b creates) ∧ (s.Kept → (s.take b creates).Kept) := by
  unfold Pool.take
  cases hpool : s.pool with
  | nil => exact create_step h hb creates
  | cons c rest =>
    have hnodup := h.pooled
    have hbound := h.bounded
    rw [hpool] at hnodup hbound
    rw [List.nodup_cons] at hnodup
    rw [List.length_cons] at hbound
    have hmem : ∀ d ∈ rest, d ∈ s.pool := fun d hd => hpool ▸ List.mem_cons_of_mem _ hd
    have hc : c ∈ s.pool := hpool ▸ List.mem_cons_self
    dsimp only
    split
    · rename_i hun
      have hdropped : Inv size { s with pool := rest } := by
        refine ⟨hnodup.2, ?_, h.once, Nat.le_of_succ_le hbound, ?_, h.knownUse, ?_⟩
        · exact fun b' d hd hp => h.apart b' d hd (hmem d hp)
        · exact fun d hd => h.knownPool d (hmem d hd)
        · intro hclose
          have hopen := open_of_block h hb
          rw [hopen] at hclose
          cases hclose
      have hnext := create_step hdropped hb creates
      refine ⟨hnext.1, fun hk => hnext.2 fun d hd => ?_⟩
      rcases hk d hd with hp | hu | hd'
      · rw [hpool] at hp
        rcases List.mem_cons.mp hp with rfl | hp
        · exact .inr (.inr hun)
        · exact .inl hp
      · exact .inr (.inl hu)
      · exact .inr (.inr hd')
    · have hopen := open_of_block h hb
      have hg : Given size s { s with pool := rest, blocks := s.blocks.set b (.body c) } b c := by
        refine ⟨moves_set rfl, hb, ?_, hnodup.2, hnodup.1, fun b' hu => h.apart b' c hu hc,
          Nat.le_of_succ_le hbound, Nat.le_refl _, h.knownPool c hc, fun d hd => .inr hd, rfl,
          hopen⟩
        intro d
        rw [hpool, List.mem_cons]
        simp [or_comm]
      exact ⟨hg.inv h, hg.kept⟩

theorem giveBack_step (h : Inv size s) {c : Nat} (hb : s.blocks.get? b = some (.returned c)) :
    Inv size (s.giveBack size b c) ∧ (s.Kept → (s.giveBack size b c).Kept) := by
  have hc : s.Uses b c := (uses_of_get? hb).mpr rfl
  have hopen := open_of_block h hb
  unfold Pool.giveBack
  split
  · rename_i hroom
    have he : Ended size s (({ s with pool := c :: s.pool } : Pool).release b) b c :=
      ⟨moves_del rfl, hc, .inr rfl, hroom, rfl, hopen, .inl rfl⟩
    exact ⟨he.inv h, fun hk => (he.kept_iff h hk).mpr (.inl List.mem_cons_self)⟩
  · have he : Ended size s (({ s with unbound := c :: s.unbound } : Pool).release b) b c :=
      ⟨moves_del rfl, hc, .inl rfl, h.bounded, rfl, hopen, .inr rfl⟩
    exact ⟨he.inv h, fun hk => (he.kept_iff h hk).mpr (.inr List.mem_cons_self)⟩

theorem raises_step (h : Inv size s) {c : Nat} (hb : s.blocks.get? b = some (.body c)) :
    Inv size (s.release b) ∧ (s.Kept → ((s.release b).Kept ↔ c ∈ s.unbound)) := by
  have hc : s.Uses b c := (uses_of_get? hb).mpr rfl
  have hopen := open_of_block h hb
  have he : Ended size s (s.release b) b c :=
    ⟨moves_del rfl, hc, .inl rfl, h.bounded, rfl, hopen, .inl rfl⟩
  refine ⟨he.inv h, fun hk => (he.kept_iff h hk).trans ?_⟩
  change c ∈ s.pool ∨ c ∈ s.unbound ↔ c ∈ s.unbound
  simp [h.apart b c hc]

theorem lose_step (h : Inv size s) (c : Nat) :
    Inv size { s with unbound := c :: s.unbound } ∧
      (s.Kept → Pool.Kept { s with unbound := c :: s.unbound }) := by
  refine ⟨⟨h.pooled, h.apart, h.once, h.bounded, h.knownPool, h.knownUse, h.ended⟩, ?_⟩
  intro hk d hd
  exact (hk d hd).imp_right (Or.imp_right (List.mem_cons_of_mem _))

theorem close_step (h : Inv size s) (hnone : ∀ b, s.blocks.get? b = none) :
    Inv size s.close ∧ (s.Kept → s.close.Kept) := by
  constructor
  · refine ⟨List.nodup_nil, ?_, h.once, Nat.zero_le _, ?_, h.knownUse, fun _ => ⟨rfl, hnone⟩⟩
    · exact fun _ _ _ => List.not_mem_nil
    · exact fun _ hc => absurd hc List.not_mem_nil
  · intro hk d hd
    rcases hk d hd with hp | hu | hun
    · exact .inr (.inr (List.mem_append_left _ hp))
    · exact .inr (.inl hu)
    · exact .inr (.inr (List.mem_append_right _ hun))

/-- One step: no connection is in two places afterwards, and none is leaked just when the event
meets `Meets`. -/
theorem step_spec (h : Inv size s) {e : Event} (hs : s.step size e = some t) :
    Inv size t ∧ (s.Kept → (t.Kept ↔ Meets s e)) := by
  have hok : Inv size t ∧ (s.Kept → t.Kept) → (∀ b, e ≠ .raises b) →
      Inv size t ∧ (s.Kept → (t.Kept ↔ Meets s e)) := by
    intro hstep hne
    refine ⟨hstep.1, fun hk => iff_of_true (hstep.2 hk) ?_⟩
    cases e with
    | raises b => exact absurd rfl (hne b)
    | _ => trivial
  cases e with
  | enter b =>
    simp only [Pool.step] at hs
    split at hs
    · rename_i hguard
      cases hs
      have hsame := same_places
        (t := { s with available := s.available - 1, blocks := s.blocks.set b .entered }) h
        (moves_set rfl) (fun c => iff_of_false (by simp [Phase.conn])
          (not_uses_of_none hguard.2.2)) rfl rfl rfl hguard.1
      exact hok ⟨hsame.1, hsame.2.mpr⟩ (by simp)
    · cases hs
  | take b creates =>
    simp only [Pool.step] at hs
    split at hs
    · rename_i hb
      cases hs
      exact hok (take_step h hb creates) (by simp)
    · cases hs
  | returns b =>
    simp only [Pool.step] at hs
    split at hs
    · rename_i c hb
      cases hs
      have hopen := open_of_block h hb
      have hsame := same_places (t := { s with blocks := s.blocks.set b (.returned c) }) h
        (moves_set rfl) (fun d => by simp [uses_of_get? hb, Phase.conn]) rfl rfl rfl hopen
      exact hok ⟨hsame.1, hsame.2.mpr⟩ (by simp)
    · cases hs
  | raises b =>
    simp only [Pool.step] at hs
    split at hs
    · rename_i c hb
      cases hs
      have hstep := raises_step h hb
      refine ⟨hstep.1, fun hk => (hstep.2 hk).trans ?_⟩
      simp [Meets, uses_of_get? hb, Phase.conn]
    · cases hs
  | giveBack b =>
    simp only [Pool.step] at hs
    split at hs
    · rename_i c hb
      cases hs
      exact hok (giveBack_step h hb) (by simp)
    · cases hs
  | lose c =>
    simp only [Pool.step] at hs
    split at hs
    · cases hs
      exact hok (lose_step h c) (by simp)
    · cases hs
  | close =>
    simp only [Pool.step] at hs
    split at hs
    · rename_i hguard
      cases hs
      have hnone : ∀ b, s.blocks.get? b = none := by
        intro b
        rw [Dict.get?, List.isEmpty_iff.mp hguard.2]
        rfl
      exact hok (close_step h hnone) (by simp)
    · cases hs

end Steps

/-! ## Runs -/

theorem inv_init (size : Nat) : Inv size (.init size) := by
  have hnone : ∀ b c, ¬(Pool.init size).Uses b c := fun b c => not_uses_of_none rfl
  refine ⟨List.nodup_nil, ?_, ?_, Nat.zero_le _, ?_, ?_, ?_⟩
  · exact fun b c hc => absurd hc (hnone b c)
  · exact fun b _ c hc => absurd hc (hnone b c)
  · exact fun _ hc => absurd hc List.not_mem_nil
  · exact fun b c hc => absurd hc (hnone b c)
  · intro hclosed
    cases hclosed

theorem inv_reachable {size : Nat} {s : Pool} (h : (system size).Reachable s) : Inv size s := by
  have hI : (system size).Inductive (Inv size) := by
    constructor
    · rintro s rfl
      exact inv_init size
    · intro s e t hi hs
      exact (step_spec hi hs).1
  exact hI.reachable s h

/-- **Connections are never leaked**, along a whole run, exactly when every body that raises
leaves its connection unbound. -/
theorem never_leaked_iff {size : Nat} {events : List Event} {s : Pool}
    (hr : (system size).Run (.init size) events s) :
    (∀ done t, done <+: events → (system size).Run (.init size) done t → Conserved size t) ↔
      ((system size).restrict Meets).Run (.init size) events s := by
  have hkept : (Pool.init size).Kept := fun c hc => absurd hc (Nat.not_lt_zero c)
  refine LTS.Run.prefixes_iff (fun s e t hi hs => (step_spec hi hs).1) ?_ hr (inv_init size)
    ((conserved_iff (inv_init size)).mpr hkept)
  intro s e t hi hc hs
  have hspec := step_spec hi hs
  rw [conserved_iff hspec.1]
  exact hspec.2 hc.kept

/-- Two blocks one after the other; the second finds the connection lost and makes another. -/
def quietRun : List Event :=
  [.enter 0, .take 0 true, .returns 0, .giveBack 0, .lose 0, .enter 1, .take 1 true, .returns 1,
    .giveBack 1, .close]

def isRaise : Event → Bool
  | .raises _ => true
  | _ => false

theorem meets_of_check (s : Pool) (e : Event) (h : (!isRaise e) = true) : Meets s e := by
  cases e with
  | raises b => cases h
  | _ => trivial

def quietPool : Pool :=
  LTS.after (LTS.checked (fun _ e => !isRaise e) (Pool.step 1)) (.init 1) quietRun

theorem never_leaked_quiet : Conserved 1 quietPool := by
  have hmeets : ((system 1).restrict Meets).Run (.init 1) quietRun quietPool :=
    LTS.restrict_run_of_exec meets_of_check (LTS.exec_after (by decide))
  have hrun : (system 1).Run (.init 1) quietRun quietPool := hmeets.of_restrict
  exact (never_leaked_iff hrun).mpr hmeets _ _ (List.prefix_refl _) hrun

/-- A body raises while its connection is bound. -/
def raisingRun : List Event := [.enter 0, .take 0 true, .raises 0, .close]

/-- After the pool was closed the connection is still bound. -/
theorem raising_body_leaks :
    (system 1).Run (.init 1) raisingRun (LTS.after (Pool.step 1) (.init 1) raisingRun) ∧
    (LTS.after (Pool.step 1) (.init 1) raisingRun).closed = true ∧
    (LTS.after (Pool.step 1) (.init 1) raisingRun).created = 1 ∧
    0 ∉ (LTS.after (Pool.step 1) (.init 1) raisingRun).unbound ∧
    ¬Conserved 1 (LTS.after (Pool.step 1) (.init 1) raisingRun) := by
  have hbound : 0 ∉ (LTS.after (Pool.step 1) (.init 1) raisingRun).unbound := by decide
  refine ⟨LTS.run_of_exec (LTS.exec_after (by decide)), by decide, by decide, hbound, ?_⟩
  intro hc
  exact hbound (hc.unbound (by decide) 0 (by decide))

end Wormhole.L5.LdapPool
