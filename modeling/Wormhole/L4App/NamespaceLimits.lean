import Mathlib.Data.Finset.Card
import Wormhole.L4App.NamespaceManager

/-!
# Member limits

`src/wh/enterprise/namespace.py`: what `max_members` holds. `can_join` counts members and
admins; `add_member` counts members and raises at the limit also for an identity that it
would not have to add, and `add_admin` does not count.

`Right` is what the limit is for, of one call: `add_member` raises exactly for a new
identity of a full namespace, and no namespace has more identities than its limit
afterwards. `limits_agree_iff`: every call of a run is right exactly when every call meets
`Meets`.
-/
namespace Wormhole.L4.Namespaces
open Wormhole.L1 Wormhole.L4.Wns

variable {C : Crypto} {Y : Yaml} {U : Unicode} {refuses : String → Option String}

/-! ## The limit -/

/-- Members and admins, everybody once. -/
def Namespace.identities (ns : Namespace) : Finset String := (ns.members ++ ns.admins).toFinset

/-- No more identities than the limit, where there is one. -/
def Namespace.Within (ns : Namespace) : Prop :=
  ∀ k, ns.maxMembers = some k → 0 < k → (ns.identities.card : Int) ≤ k

namespace NamespaceManager

def All (P : Namespace → Prop) (m : NamespaceManager Y) : Prop :=
  ∀ name ns, m.namespaces.get? name = some ns → P ns

end NamespaceManager

/-- The limit that a call sets, and where. -/
def Call.setsLimit : Call → Option (String × Int)
  | .create name _ _ _ maxMembers _ => maxMembers.map fun k => (name, k)
  | .update name _ _ maxMembers => maxMembers.map fun k => (name, k)
  | _ => none

/-- The call returns, or only its file cannot be written. -/
def Accepted (C : Crypto) (U : Unicode) (refuses : String → Option String)
    (m : NamespaceManager Y) (c : Call) : Prop :=
  ∀ e, (m.call C U refuses c).2 = some e → e.exception = .os

/-- The limit is not set below the number of identities that the namespace then has. -/
def Respects (C : Crypto) (U : Unicode) (refuses : String → Option String)
    (m : NamespaceManager Y) (c : Call) : Prop :=
  ∀ name k ns, Accepted C U refuses m c → c.setsLimit = some (name, k) →
    (m.after C U refuses c).namespaces.get? name = some ns → (ns.identities.card : Int) ≤ k

/-- `add_member` raises the ValueError of the limit just for a new identity of a namespace that
is full. -/
def AddsRight (C : Crypto) (U : Unicode) (refuses : String → Option String)
    (m : NamespaceManager Y) (c : Call) : Prop :=
  ∀ name identity ns, c = .addMember name identity → m.namespaces.get? name = some ns →
    ((∃ k, (m.call C U refuses c).2 = some (NamespaceManager.limitReached k)) ↔
      identity ∉ ns.identities ∧
        ∃ k, ns.maxMembers = some k ∧ 0 < k ∧ (ns.identities.card : Int) = k)

def Right (C : Crypto) (U : Unicode) (refuses : String → Option String)
    (m : NamespaceManager Y) (c : Call) : Prop :=
  AddsRight C U refuses m c ∧ (m.after C U refuses c).All Namespace.Within

/-- The identity is known, or there is room for one more. -/
def Namespace.TakesAdmin (identity : String) (ns : Namespace) : Prop :=
  ∀ k, ns.maxMembers = some k → 0 < k →
    identity ∈ ns.identities ∨ (ns.identities.card : Int) < k

/-- The identity is known and the members alone are fewer than the limit, or it is new and
there is room for one more, or there are as many members. -/
def Namespace.TakesMember (identity : String) (ns : Namespace) : Prop :=
  ∀ k, ns.maxMembers = some k → 0 < k →
    if identity ∈ ns.identities then (ns.members.length : Int) < k
    else (ns.identities.card : Int) < k ∨ k ≤ ns.members.length

def Meets (m : NamespaceManager Y) (c : Call) : Prop :=
  match c with
  | .addAdmin name identity =>
    ∀ ns, m.namespaces.get? name = some ns → ns.TakesAdmin identity
  | .addMember name identity =>
    ∀ ns, m.namespaces.get? name = some ns → ns.TakesMember identity
  | _ => True

/-! ## What a call does to a namespace -/

/-- The namespace after a call that changes it in place. -/
def Call.edit (c : Call) (ns : Namespace) : Namespace :=
  match c with
  | .update _ description isPublic maxMembers => { ns with
      description := description.or ns.description
      isPublic := isPublic.getD ns.isPublic
      maxMembers := maxMembers.or ns.maxMembers }
  | .addAdmin _ identity =>
    if identity ∈ ns.admins then ns else { ns with admins := ns.admins ++ [identity] }
  | .removeAdmin _ identity =>
    if identity ∈ ns.admins then { ns with admins := ns.admins.erase identity } else ns
  | .addMember _ identity =>
    if (NamespaceManager.memberLimit ns).isSome ∨ identity ∈ ns.members then ns
    else { ns with members := ns.members ++ [identity] }
  | .removeMember _ identity =>
    if identity ∈ ns.members then { ns with members := ns.members.erase identity } else ns
  | _ => ns

/-- The namespace that a call changes in place. -/
def Call.target : Call → Option String
  | .create .. => none
  | .delete .. => none
  | .update name .. => some name
  | .addAdmin name _ => some name
  | .removeAdmin name _ => some name
  | .addMember name _ => some name
  | .removeMember name _ => some name

theorem call_missing {m : NamespaceManager Y} {c : Call} {name : String}
    (ht : c.target = some name) (h : m.namespaces.get? name = none) :
    m.after C U refuses c = m := by
  cases c <;> cases ht <;>
    simp [NamespaceManager.after, NamespaceManager.call, NamespaceManager.update,
      NamespaceManager.addAdmin, NamespaceManager.removeAdmin, NamespaceManager.addMember,
      NamespaceManager.removeMember, NamespaceManager.get, h]

theorem namespaces_after {m : NamespaceManager Y} {c : Call} {name : String} {ns : Namespace}
    (ht : c.target = some name) (h : m.namespaces.get? name = some ns) :
    (m.after C U refuses c).namespaces = m.namespaces.set name (c.edit ns) := by
  have hself := Dict.set_get? h
  cases c with
  | create => cases ht
  | delete => cases ht
  | update =>
    cases ht
    simp [NamespaceManager.after, NamespaceManager.call, NamespaceManager.update,
      NamespaceManager.get, h, Call.edit]
  | addAdmin _ identity =>
    cases ht
    by_cases hmem : identity ∈ ns.admins <;>
      simp [NamespaceManager.after, NamespaceManager.call, NamespaceManager.addAdmin,
        NamespaceManager.get, h, hmem, hself, Call.edit]
  | removeAdmin _ identity =>
    cases ht
    by_cases hmem : identity ∈ ns.admins <;>
      simp [NamespaceManager.after, NamespaceManager.call, NamespaceManager.removeAdmin,
        NamespaceManager.get, h, hmem, hself, Call.edit]
  | addMember _ identity =>
    cases ht
    cases hlimit : NamespaceManager.memberLimit ns with
    | some k =>
      simp [NamespaceManager.after, NamespaceManager.call, NamespaceManager.addMember,
        NamespaceManager.get, h, hlimit, hself, Call.edit]
    | none =>
      by_cases hmem : identity ∈ ns.members <;>
        simp [NamespaceManager.after, NamespaceManager.call, NamespaceManager.addMember,
          NamespaceManager.get, h, hlimit, hmem, hself, Call.edit]
  | removeMember _ identity =>
    cases ht
    by_cases hmem : identity ∈ ns.members <;>
      simp [NamespaceManager.after, NamespaceManager.call, NamespaceManager.removeMember,
        NamespaceManager.get, h, hmem, hself, Call.edit]

namespace NamespaceManager

variable {P : Namespace → Prop} {m : NamespaceManager Y} {c : Call} {name : String}

theorem All.set (h : m.All P) {ns : Namespace} (hns : P ns) {files : Dict String Y.Text} :
    (⟨m.namespaces.set name ns, files⟩ : NamespaceManager Y).All P := by
  intro n ns' hn
  rw [Dict.get?_set] at hn
  split at hn
  · rw [Option.some.injEq] at hn
    exact hn ▸ hns
  · exact h n ns' hn

/-- A call that changes a namespace in place keeps what holds of all of them exactly when
it keeps it of this one. -/
theorem all_after_iff {ns : Namespace} (h : m.All P) (ht : c.target = some name)
    (hns : m.namespaces.get? name = some ns) : (m.after C U refuses c).All P ↔ P (c.edit ns) := by
  have hset : (m.after C U refuses c).namespaces = m.namespaces.set name (c.edit ns) :=
    namespaces_after ht hns
  constructor
  · intro hall
    refine hall name (c.edit ns) ?_
    rw [hset, Dict.get?_set_self]
  · intro hP n ns' hn
    rw [hset] at hn
    have hall : (⟨m.namespaces.set name (c.edit ns), m.files⟩ : NamespaceManager Y).All P :=
      h.set hP
    exact hall n ns' hn

theorem all_after (h : m.All P) (ht : c.target = some name)
    (hP : ∀ ns, m.namespaces.get? name = some ns → P (c.edit ns)) :
    (m.after C U refuses c).All P := by
  cases hns : m.namespaces.get? name with
  | none => rwa [call_missing ht hns]
  | some ns => exact (all_after_iff h ht hns).mpr (hP ns hns)

theorem all_delete (h : m.All P) (force : Bool) :
    (m.after C U refuses (.delete name force)).All P := by
  unfold after call delete
  dsimp only
  split
  · exact h
  · split
    · exact h
    · split
      · exact h
      · intro n ns hn
        rw [Dict.get?_del] at hn
        split at hn
        · cases hn
        · exact h n ns hn

end NamespaceManager

section Create

variable {m : NamespaceManager Y} {name : String} {description : Option String}
  {admins : List String} {isPublic : Bool} {maxMembers : Option Int} {now : String}

/-- `create` refuses the name, or memory has the namespace. -/
theorem create_cases :
    ((m.call C U refuses (.create name description admins isPublic maxMembers now)).1 = m ∧
      ¬ Accepted C U refuses m (.create name description admins isPublic maxMembers now)) ∨
    m.call C U refuses (.create name description admins isPublic maxMembers now) =
      m.saveNamespace refuses name
        (created C name description admins isPublic maxMembers now) := by
  unfold Accepted NamespaceManager.call NamespaceManager.create
  dsimp only
  split
  · left
    refine ⟨rfl, fun h => ?_⟩
    cases h _ rfl
  · split
    · left
      refine ⟨rfl, fun h => ?_⟩
      cases h _ rfl
    · exact .inr rfl

theorem saveNamespace_accepted {ns : Namespace} {e : Raised}
    (h : (m.saveNamespace refuses name ns).2 = some e) : e.exception = .os := by
  unfold NamespaceManager.saveNamespace at h
  split at h
  · cases h
  · cases h
    rfl

theorem all_create {P : Namespace → Prop} (h : m.All P)
    (hP : m.call C U refuses (.create name description admins isPublic maxMembers now) =
        m.saveNamespace refuses name
          (created C name description admins isPublic maxMembers now) →
      P (created C name description admins isPublic maxMembers now)) :
    (m.after C U refuses (.create name description admins isPublic maxMembers now)).All P := by
  unfold NamespaceManager.after
  rcases create_cases with ⟨hsame, -⟩ | hsaved
  · rwa [hsame]
  · rw [hsaved]
    have hset : (⟨m.namespaces.set name (created C name description admins isPublic maxMembers
        now), m.files⟩ : NamespaceManager Y).All P := h.set (hP hsaved)
    intro n ns hn
    rw [NamespaceManager.saveNamespace_namespaces] at hn
    exact hset n ns hn

theorem created_respects {k : Int}
    (hr : Respects C U refuses m (.create name description admins isPublic (some k) now))
    (hsaved : m.call C U refuses (.create name description admins isPublic (some k) now) =
      m.saveNamespace refuses name (created C name description admins isPublic (some k) now)) :
    ((created C name description admins isPublic (some k) now).identities.card : Int) ≤ k := by
  refine hr name k _ ?_ rfl ?_
  · intro e he
    rw [hsaved] at he
    exact saveNamespace_accepted he
  · unfold NamespaceManager.after
    rw [hsaved, NamespaceManager.saveNamespace_namespaces, Dict.get?_set_self]

end Create

theorem update_respects {m : NamespaceManager Y} {name : String} {description : Option String}
    {isPublic : Option Bool} {k : Int} {ns : Namespace}
    (hr : Respects C U refuses m (.update name description isPublic (some k)))
    (hns : m.namespaces.get? name = some ns) :
    (((Call.update name description isPublic (some k)).edit ns).identities.card : Int) ≤ k := by
  refine hr name k _ ?_ rfl ?_
  · intro e he
    simp only [NamespaceManager.call, NamespaceManager.update, NamespaceManager.get, hns] at he
    exact saveNamespace_accepted he
  · rw [namespaces_after rfl hns, Dict.get?_set_self]

/-! ## Counting -/

/-- Nobody is listed twice among the members, and the limit is not negative. -/
structure Namespace.Sound (ns : Namespace) : Prop where
  nodup : ns.members.Nodup
  nonneg : ∀ k, ns.maxMembers = some k → 0 ≤ k

theorem members_le (ns : Namespace) (h : ns.members.Nodup) :
    ns.members.length ≤ ns.identities.card := by
  rw [← List.toFinset_card_of_nodup h]
  refine Finset.card_le_card ?_
  intro x hx
  simp only [Namespace.identities, List.mem_toFinset, List.mem_append] at hx ⊢
  exact .inl hx

theorem mem_identities {ns : Namespace} {x : String} :
    x ∈ ns.identities ↔ x ∈ ns.members ∨ x ∈ ns.admins := by
  simp [Namespace.identities]

/-- Only `update` sets the limit. -/
theorem maxMembers_edit {c : Call}
    (hc : ∀ name description isPublic maxMembers, c ≠ .update name description isPublic maxMembers)
    (ns : Namespace) : (c.edit ns).maxMembers = ns.maxMembers := by
  unfold Call.edit
  cases c with
  | create => rfl
  | delete => rfl
  | update => exact absurd rfl (hc _ _ _ _)
  | addAdmin | removeAdmin | addMember | removeMember =>
    dsimp only
    split
    · rfl
    · rfl

theorem identities_addAdmin (name identity : String) (ns : Namespace) :
    ((Call.addAdmin name identity).edit ns).identities = insert identity ns.identities := by
  ext x
  by_cases hmem : identity ∈ ns.admins
  · have hknown : identity ∈ ns.identities := mem_identities.mpr (.inr hmem)
    simp [Call.edit, hmem, Finset.insert_eq_of_mem hknown]
  · simp only [Call.edit, hmem, if_false, mem_identities, Finset.mem_insert, List.mem_append,
      List.mem_singleton]
    grind

theorem within_addAdmin (name identity : String) {ns : Namespace} (hw : ns.Within) :
    ((Call.addAdmin name identity).edit ns).Within ↔ ns.TakesAdmin identity := by
  unfold Namespace.Within Namespace.TakesAdmin
  rw [identities_addAdmin, maxMembers_edit (by simp)]
  refine forall_congr' fun k => imp_congr_right fun hk => imp_congr_right fun hpos => ?_
  have hcard := hw k hk hpos
  by_cases hknown : identity ∈ ns.identities
  · simp [Finset.insert_eq_of_mem hknown, hknown, hcard]
  · rw [Finset.card_insert_of_notMem hknown]
    simp only [hknown, false_or]
    omega

theorem identities_removeAdmin (name identity : String) (ns : Namespace) :
    ((Call.removeAdmin name identity).edit ns).identities ⊆ ns.identities := by
  intro x hx
  by_cases hmem : identity ∈ ns.admins
  · simp only [Call.edit, hmem, if_true, mem_identities] at hx ⊢
    exact hx.imp_right List.mem_of_mem_erase
  · simpa [Call.edit, hmem] using hx

theorem identities_removeMember (name identity : String) (ns : Namespace) :
    ((Call.removeMember name identity).edit ns).identities ⊆ ns.identities := by
  intro x hx
  by_cases hmem : identity ∈ ns.members
  · simp only [Call.edit, hmem, if_true, mem_identities] at hx ⊢
    exact hx.imp_left List.mem_of_mem_erase
  · simpa [Call.edit, hmem] using hx

theorem within_of_subset {ns ns' : Namespace} (hw : ns.Within)
    (hmax : ns'.maxMembers = ns.maxMembers) (hsub : ns'.identities ⊆ ns.identities) :
    ns'.Within := by
  intro k hk hpos
  rw [hmax] at hk
  have hcard := Finset.card_le_card hsub
  have hle := hw k hk hpos
  omega

/-- `add_member` stops at the limit of the members alone. -/
theorem memberLimit_iff {ns : Namespace} {k : Int} (hk : ns.maxMembers = some k) (hpos : 0 < k) :
    (NamespaceManager.memberLimit ns).isSome = true ↔ k ≤ ns.members.length := by
  unfold NamespaceManager.memberLimit
  rw [hk]
  by_cases hle : k ≤ ns.members.length
  · simp [Option.filter, hle, hpos.ne']
  · simp [Option.filter, hle]

theorem memberLimit_none {ns : Namespace} (hs : ns.Sound)
    (h : ∀ k, ns.maxMembers = some k → ¬0 < k) : NamespaceManager.memberLimit ns = none := by
  unfold NamespaceManager.memberLimit
  cases hk : ns.maxMembers with
  | none => rfl
  | some k =>
    have hzero : k = 0 := le_antisymm (not_lt.mp (h k hk)) (hs.nonneg k hk)
    simp [Option.filter, hzero]

theorem identities_added {ns : Namespace} (name identity : String)
    (h : (NamespaceManager.memberLimit ns).isSome = false) :
    ((Call.addMember name identity).edit ns).identities = insert identity ns.identities := by
  ext x
  by_cases hmem : identity ∈ ns.members
  · have hknown : identity ∈ ns.identities := mem_identities.mpr (.inl hmem)
    simp [Call.edit, h, hmem, Finset.insert_eq_of_mem hknown]
  · simp only [Call.edit, h, hmem, Bool.false_eq_true, or_self, if_false, mem_identities,
      Finset.mem_insert, List.mem_append, List.mem_singleton]
    grind

theorem edit_full {ns : Namespace} (name identity : String)
    (h : (NamespaceManager.memberLimit ns).isSome = true) :
    (Call.addMember name identity).edit ns = ns := by
  simp [Call.edit, h]

/-- What `add_member` does right: it stops where the limit is reached by others, and keeps it. -/
def Namespace.AddsRight (ns : Namespace) (name identity : String) : Prop :=
  ((NamespaceManager.memberLimit ns).isSome = true ↔ identity ∉ ns.identities ∧
      ∃ k, ns.maxMembers = some k ∧ 0 < k ∧ (ns.identities.card : Int) = k) ∧
    ((Call.addMember name identity).edit ns).Within

theorem addsRight_of_limit (name identity : String) {ns : Namespace} (hs : ns.Sound)
    (hw : ns.Within) {k : Int} (hk : ns.maxMembers = some k) (hpos : 0 < k) :
    ns.AddsRight name identity ↔ ns.TakesMember identity := by
  have hcard := hw k hk hpos
  have hlen := members_le ns hs.nodup
  have hstop := memberLimit_iff hk hpos
  have hwithin : ((Call.addMember name identity).edit ns).Within ↔
      (((Call.addMember name identity).edit ns).identities.card : Int) ≤ k := by
    unfold Namespace.Within
    rw [maxMembers_edit (by simp), hk]
    simp [hpos]
  unfold Namespace.AddsRight Namespace.TakesMember
  simp only [hk, Option.some.injEq, exists_eq_left', hpos, true_and, forall_eq', true_imp_iff,
    hwithin, hstop]
  by_cases hfull : k ≤ ns.members.length
  · rw [edit_full name identity (hstop.mpr hfull)]
    by_cases hknown : identity ∈ ns.identities
    · simp only [hknown, hfull, not_true_eq_false, false_and, true_iff, false_iff, if_true]
      omega
    · simp only [hknown, hfull, not_false_eq_true, true_and, true_iff, if_false, or_true,
        iff_true]
      omega
  · have hfree : (NamespaceManager.memberLimit ns).isSome = false := by
      rw [← Bool.not_eq_true, hstop]
      exact hfull
    rw [identities_added name identity hfree]
    by_cases hknown : identity ∈ ns.identities
    · rw [Finset.insert_eq_of_mem hknown]
      simp only [hknown, hfull, not_true_eq_false, false_and, iff_self, true_and, if_true]
      omega
    · rw [Finset.card_insert_of_notMem hknown]
      simp only [hknown, hfull, not_false_eq_true, true_and, false_iff, if_false, or_false]
      omega

theorem addsRight_of_none (name identity : String) {ns : Namespace} (hs : ns.Sound)
    (hnone : ∀ k, ns.maxMembers = some k → ¬0 < k) :
    ns.AddsRight name identity ∧ ns.TakesMember identity := by
  have hwithin : ((Call.addMember name identity).edit ns).Within := by
    intro k hk hpos
    rw [maxMembers_edit (by simp)] at hk
    exact absurd hpos (hnone k hk)
  have hstop : (NamespaceManager.memberLimit ns).isSome = false := by
    rw [memberLimit_none hs hnone]
    rfl
  refine ⟨⟨?_, hwithin⟩, fun k hk hpos => absurd hpos (hnone k hk)⟩
  rw [hstop]
  constructor
  · intro h
    cases h
  · rintro ⟨_, k, hk, hpos, _⟩
    exact absurd hpos (hnone k hk)

/-- What `add_member` does right by a namespace that has kept its limit so far. -/
theorem addMember_right_iff (name identity : String) {ns : Namespace} (hs : ns.Sound)
    (hw : ns.Within) : ns.AddsRight name identity ↔ ns.TakesMember identity := by
  by_cases hlimit : ∃ k, ns.maxMembers = some k ∧ 0 < k
  · obtain ⟨k, hk, hpos⟩ := hlimit
    exact addsRight_of_limit name identity hs hw hk hpos
  · obtain ⟨hright, htakes⟩ := addsRight_of_none name identity hs
      fun k hk hpos => hlimit ⟨k, hk, hpos⟩
    exact iff_of_true hright htakes

/-! ## Runs -/

theorem sound_created {m : NamespaceManager Y} {name : String} {description : Option String}
    {admins : List String} {isPublic : Bool} {maxMembers : Option Int} {now : String}
    (hr : Respects C U refuses m (.create name description admins isPublic maxMembers now))
    (hsaved : m.call C U refuses (.create name description admins isPublic maxMembers now) =
      m.saveNamespace refuses name
        (created C name description admins isPublic maxMembers now)) :
    (created C name description admins isPublic maxMembers now).Sound ∧
      (created C name description admins isPublic maxMembers now).Within := by
  have hle : ∀ k, maxMembers = some k → ((created C name description admins isPublic
      maxMembers now).identities.card : Int) ≤ k := by
    rintro k rfl
    exact created_respects hr hsaved
  refine ⟨⟨List.nodup_nil, ?_⟩, fun k hk _ => hle k hk⟩
  intro k hk
  have hcard := hle k hk
  omega

theorem sound_update {m : NamespaceManager Y} {name : String} {description : Option String}
    {isPublic : Option Bool} {maxMembers : Option Int} {ns : Namespace}
    (hr : Respects C U refuses m (.update name description isPublic maxMembers))
    (hns : m.namespaces.get? name = some ns) (hs : ns.Sound) (hw : ns.Within) :
    ((Call.update name description isPublic maxMembers).edit ns).Sound ∧
      ((Call.update name description isPublic maxMembers).edit ns).Within := by
  cases maxMembers with
  | none =>
    exact ⟨⟨hs.nodup, hs.nonneg⟩, hw⟩
  | some k =>
    have hle := update_respects hr hns
    refine ⟨⟨hs.nodup, ?_⟩, ?_⟩
    · intro j hj
      cases hj
      omega
    · intro j hj _
      cases hj
      exact hle

theorem nodup_edit (c : Call) {ns : Namespace} (h : ns.members.Nodup) :
    (c.edit ns).members.Nodup := by
  unfold Call.edit
  cases c with
  | create => exact h
  | delete => exact h
  | update => exact h
  | addAdmin | removeAdmin =>
    dsimp only
    split
    · exact h
    · exact h
  | addMember =>
    dsimp only
    split
    · exact h
    · rename_i hnew
      rw [not_or] at hnew
      exact List.nodup_append.mpr ⟨h, List.nodup_singleton _, by
        intro a ha b hb hab
        rw [List.mem_singleton] at hb
        exact hnew.2 (hb ▸ hab ▸ ha)⟩
  | removeMember =>
    dsimp only
    split
    · exact h.erase _
    · exact h

theorem sound_edit {c : Call}
    (hc : ∀ name description isPublic maxMembers, c ≠ .update name description isPublic maxMembers)
    {ns : Namespace} (hs : ns.Sound) : (c.edit ns).Sound := by
  refine ⟨nodup_edit c hs.nodup, ?_⟩
  rw [maxMembers_edit hc]
  exact hs.nonneg

theorem sound_after {m : NamespaceManager Y} {c : Call} (hs : m.All Namespace.Sound)
    (hw : m.All Namespace.Within) (hr : Respects C U refuses m c) :
    (m.after C U refuses c).All Namespace.Sound := by
  cases c with
  | create => exact all_create hs fun hsaved => (sound_created hr hsaved).1
  | delete name force => exact NamespaceManager.all_delete hs force
  | update name =>
    exact NamespaceManager.all_after hs rfl fun ns hns =>
      (sound_update hr hns (hs name ns hns) (hw name ns hns)).1
  | addAdmin | removeAdmin | addMember | removeMember =>
    exact NamespaceManager.all_after hs rfl fun ns hns => sound_edit (by simp) (hs _ ns hns)

theorem addsRight_of_ne {m : NamespaceManager Y} {c : Call}
    (h : ∀ name identity, c ≠ .addMember name identity) : AddsRight C U refuses m c :=
  fun name identity _ hc => absurd hc (h name identity)

theorem addMember_raises_iff {m : NamespaceManager Y} {name identity : String} {ns : Namespace}
    (hns : m.namespaces.get? name = some ns) :
    (∃ k, (m.call C U refuses (.addMember name identity)).2 =
        some (NamespaceManager.limitReached k)) ↔
      (NamespaceManager.memberLimit ns).isSome = true := by
  simp only [NamespaceManager.call, NamespaceManager.addMember, NamespaceManager.get, hns]
  cases NamespaceManager.memberLimit ns with
  | some k => simp
  | none =>
    dsimp only
    split
    · simp
    · simp only [Option.isSome_none, Bool.false_eq_true, iff_false]
      intro hraised
      obtain ⟨k, hk⟩ := hraised
      cases saveNamespace_accepted hk

theorem forall_found {m : NamespaceManager Y} {name : String} {ns : Namespace}
    {Q : Namespace → Prop} (hns : m.namespaces.get? name = some ns) :
    (∀ ns', m.namespaces.get? name = some ns' → Q ns') ↔ Q ns := by
  constructor
  · exact fun h => h ns hns
  · intro h ns' hns'
    rw [hns, Option.some.injEq] at hns'
    exact hns' ▸ h

theorem right_iff_meets {m : NamespaceManager Y} {c : Call} (hs : m.All Namespace.Sound)
    (hw : m.All Namespace.Within) (hr : Respects C U refuses m c) :
    Right C U refuses m c ↔ Meets m c := by
  unfold Right
  cases c with
  | create =>
    refine iff_of_true ⟨addsRight_of_ne (by simp), ?_⟩ trivial
    exact all_create hw fun hsaved => (sound_created hr hsaved).2
  | delete name force =>
    exact iff_of_true ⟨addsRight_of_ne (by simp), NamespaceManager.all_delete hw force⟩ trivial
  | update name =>
    refine iff_of_true ⟨addsRight_of_ne (by simp), ?_⟩ trivial
    exact NamespaceManager.all_after hw rfl fun ns hns =>
      (sound_update hr hns (hs name ns hns) (hw name ns hns)).2
  | removeAdmin name identity =>
    refine iff_of_true ⟨addsRight_of_ne (by simp), ?_⟩ trivial
    exact NamespaceManager.all_after hw rfl fun ns hns => within_of_subset (hw name ns hns)
      (maxMembers_edit (by simp) ns) (identities_removeAdmin name identity ns)
  | removeMember name identity =>
    refine iff_of_true ⟨addsRight_of_ne (by simp), ?_⟩ trivial
    exact NamespaceManager.all_after hw rfl fun ns hns => within_of_subset (hw name ns hns)
      (maxMembers_edit (by simp) ns) (identities_removeMember name identity ns)
  | addAdmin name identity =>
    rw [and_iff_right (addsRight_of_ne (by simp))]
    cases hns : m.namespaces.get? name with
    | none =>
      have hsame : m.after C U refuses (.addAdmin name identity) = m := call_missing rfl hns
      simp [hsame, hw, Meets, hns]
    | some ns =>
      rw [NamespaceManager.all_after_iff hw rfl hns,
        within_addAdmin name identity (hw name ns hns)]
      exact (forall_found (Q := Namespace.TakesAdmin identity) hns).symm
  | addMember name identity =>
    cases hns : m.namespaces.get? name with
    | none =>
      refine iff_of_true ⟨?_, ?_⟩ ?_
      · rintro n i ns hc hn
        cases hc
        rw [hns] at hn
        cases hn
      · rwa [call_missing rfl hns]
      · intro ns hn
        rw [hns] at hn
        cases hn
    | some ns =>
      have hone : AddsRight C U refuses m (.addMember name identity) ↔
          ((NamespaceManager.memberLimit ns).isSome = true ↔ identity ∉ ns.identities ∧
            ∃ k, ns.maxMembers = some k ∧ 0 < k ∧ (ns.identities.card : Int) = k) := by
        rw [← addMember_raises_iff hns]
        constructor
        · exact fun h => h name identity ns rfl hns
        · rintro h n i ns' hc hn
          cases hc
          rw [hns] at hn
          cases hn
          exact h
      rw [hone, NamespaceManager.all_after_iff hw rfl hns]
      exact (addMember_right_iff name identity (hs name ns hns) (hw name ns hns)).trans
        (forall_found (Q := Namespace.TakesMember identity) hns).symm

theorem fresh_all {P : Namespace → Prop} {now : String} (h : P (defaultNamespace C now)) :
    (NamespaceManager.fresh C Y now).All P := by
  intro name ns hns
  have hget : (NamespaceManager.fresh C Y now).namespaces.get? name =
      if DEFAULT_NAMESPACE = name then some (defaultNamespace C now) else none :=
    (Dict.get?_set _ _ _ _).trans (by simp)
  rw [hget] at hns
  split at hns
  · rw [Option.some.injEq] at hns
    exact hns ▸ h
  · cases hns

/-- **Member limits agree**: along a run whose limits are never set below what is there, every
`add_member` raises just for a new identity of a full namespace, and no namespace ever has
more identities than its limit, exactly when every call meets `Meets`. -/
theorem limits_agree_iff {now : String} {calls : List Call} {m : NamespaceManager Y} :
    (((system C Y U refuses).restrict (Respects C U refuses)).restrict (Right C U refuses)).Run
        (.fresh C Y now) calls m ↔
      (((system C Y U refuses).restrict (Respects C U refuses)).restrict Meets).Run
        (.fresh C Y now) calls m := by
  apply LTS.Run.restrict_iff_restrict
    (I := fun m => m.All Namespace.Sound ∧ m.All Namespace.Within)
  · rintro m c m' ⟨hs, hw⟩ hright ⟨hr, hstep⟩
    cases hstep
    exact ⟨sound_after hs hw hr, hright.2⟩
  · rintro m c m' ⟨hs, hw⟩ ⟨hr, _⟩
    exact right_iff_meets hs hw hr
  · constructor
    · refine fresh_all ⟨List.nodup_nil, ?_⟩
      intro k hk
      cases hk
    · refine fresh_all ?_
      intro k hk
      cases hk

/-! ## A team of one -/

def respects (C : Crypto) (U : Unicode) (refuses : String → Option String)
    (m : NamespaceManager Y) (c : Call) : Bool :=
  match c.setsLimit with
  | some (name, k) =>
    ((m.after C U refuses c).namespaces.get? name).all fun ns => (ns.identities.card : Int) ≤ k
  | none => true

theorem respects_of_check (m : NamespaceManager Y) (c : Call)
    (h : respects C U refuses m c = true) : Respects C U refuses m c := by
  intro name k ns _ hlimit hns
  unfold respects at h
  rw [hlimit] at h
  simpa [hns] using h

/-- Alice is the member, and is added once more; Bob becomes an admin. -/
def loneTeam : List Call :=
  [.create "team" none [] false (some 1) "t1", .addMember "team" "alice",
    .addMember "team" "alice", .addAdmin "team" "bob"]

def loneManager (calls : List Call) : NamespaceManager Yaml.plain :=
  LTS.after (LTS.checked (respects Crypto.sample asciiOnly tooLong)
    fun m c => some (m.after Crypto.sample asciiOnly tooLong c))
    (.fresh Crypto.sample Yaml.plain "t0") calls

/-- The second call for Alice raises, and the team of one has two identities in the end. -/
theorem team_of_one_has_two :
    ((system Crypto.sample Yaml.plain asciiOnly tooLong).restrict
      (Respects Crypto.sample asciiOnly tooLong)).Run (.fresh Crypto.sample Yaml.plain "t0")
        loneTeam (loneManager loneTeam) ∧
    ((loneManager (loneTeam.take 2)).call Crypto.sample asciiOnly tooLong
      (.addMember "team" "alice")).2 = some (NamespaceManager.limitReached 1) ∧
    ((loneManager (loneTeam.take 2)).namespaces.get? "team").map Namespace.members =
      some ["alice"] ∧
    ((loneManager loneTeam).namespaces.get? "team").map Namespace.maxMembers = some (some 1) ∧
    ((loneManager loneTeam).namespaces.get? "team").map (·.identities.card) = some 2 := by
  refine ⟨LTS.restrict_run_of_exec respects_of_check ?_, ?_, ?_, ?_, ?_⟩
  · exact LTS.exec_after (by decide +kernel)
  all_goals decide +kernel

end Wormhole.L4.Namespaces
