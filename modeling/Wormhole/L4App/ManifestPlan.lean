import Wormhole.L4App.Rsync

/-!
# The plan of a synchronization

`compare_manifests` of `src/wh/cli/rsync.py` with `delete=True`, for any two
manifests: its two lists are what takes the remote map of checksums to the
local one.

* `plan_exact`: the plan does it, touches no path on which the maps agree,
  and leaves nothing to do a second time; every other plan that does it
  contains it.
-/
namespace Wormhole.L4.Rsync
open Wormhole.L1 Wormhole.PosixPath

variable {κ : Type} [DecidableEq κ]

/-! ## The two maps -/

omit [DecidableEq κ] in
/-- The remote map once every path of `toSend` has its local checksum and every
path of `toDelete` is gone. -/
def patched (localM remoteM : List (Entry κ)) (toSend toDelete : List Str) : Dict Str κ :=
  ((byPath localM).overwrite (byPath remoteM) toSend).delAll toDelete

/-! ## The plan -/

theorem mem_files_to_send {localM remoteM : List (Entry κ)} {delete : Bool} {p : Str} :
    p ∈ (compareManifests localM remoteM delete).1 ↔
      ∃ k, (byPath localM).get? p = some k ∧ (byPath remoteM).get? p ≠ some k := by
  simp only [compareManifests, List.mem_map, List.mem_filter, decide_eq_true_eq]
  constructor
  · rintro ⟨⟨q, k⟩, ⟨hq, hne⟩, rfl⟩
    exact ⟨k, Dict.mem_entries.mp hq, hne⟩
  · rintro ⟨k, hp, hne⟩
    exact ⟨(p, k), ⟨Dict.mem_entries.mpr hp, hne⟩, rfl⟩

theorem mem_files_to_delete {localM remoteM : List (Entry κ)} {p : Str} :
    p ∈ (compareManifests localM remoteM true).2 ↔
      (byPath localM).get? p = none ∧ ((byPath remoteM).get? p).isSome := by
  simp only [compareManifests, if_true, List.mem_map, List.mem_filter, decide_eq_true_eq]
  constructor
  · rintro ⟨⟨q, k⟩, ⟨hq, hno⟩, rfl⟩
    exact ⟨hno, by rw [Dict.mem_entries.mp hq]; rfl⟩
  · rintro ⟨hno, hp⟩
    obtain ⟨k, hk⟩ := Option.isSome_iff_exists.mp hp
    exact ⟨(p, k), ⟨Dict.mem_entries.mpr hk, hno⟩, rfl⟩

theorem nodup_toSend (localM remoteM : List (Entry κ)) (delete : Bool) :
    (compareManifests localM remoteM delete).1.Nodup :=
  (byPath localM).nodup.sublist (List.filter_sublist.map Prod.fst)

theorem nodup_toDelete (localM remoteM : List (Entry κ)) :
    (compareManifests localM remoteM true).2.Nodup :=
  (byPath remoteM).nodup.sublist (List.filter_sublist.map Prod.fst)

omit [DecidableEq κ] in
theorem get?_patched (localM remoteM : List (Entry κ)) (S D : List Str) (p : Str) :
    (patched localM remoteM S D).get? p = if p ∈ D then none
      else if p ∈ S ∧ ((byPath localM).get? p).isSome then (byPath localM).get? p
      else (byPath remoteM).get? p := by
  rw [patched, Dict.get?_delAll, Dict.get?_overwrite]
  split_ifs <;> rfl

/-- Where two maps of checksums agree there is nothing to do. -/
theorem compareManifests_of_agree {localM remoteM : List (Entry κ)}
    (h : ∀ p, (byPath remoteM).get? p = (byPath localM).get? p) :
    compareManifests localM remoteM true = ([], []) := by
  refine Prod.ext (List.eq_nil_iff_forall_not_mem.mpr fun p hp => ?_)
    (List.eq_nil_iff_forall_not_mem.mpr fun p hp => ?_)
  · obtain ⟨k, hk, hne⟩ := mem_files_to_send.mp hp
    exact hne ((h p).trans hk)
  · obtain ⟨hno, hsome⟩ := mem_files_to_delete.mp hp
    rw [h p, hno] at hsome
    cases hsome

/-- The plan takes the remote map to the local one. -/
theorem get?_patched_plan (localM remoteM : List (Entry κ)) (p : Str) :
    (patched localM remoteM (compareManifests localM remoteM true).1
      (compareManifests localM remoteM true).2).get? p = (byPath localM).get? p := by
  rw [get?_patched]
  cases hl : (byPath localM).get? p with
  | none =>
    split
    · rfl
    · rename_i hd
      have hr : ¬ ((byPath remoteM).get? p).isSome := fun hr =>
        hd (mem_files_to_delete.mpr ⟨hl, hr⟩)
      simpa using hr
  | some k =>
    have hd : p ∉ (compareManifests localM remoteM true).2 := fun hd => by
      have hno := (mem_files_to_delete.mp hd).1
      rw [hl] at hno
      cases hno
    rw [if_neg hd]
    split
    · rfl
    · rename_i hs
      by_contra hne
      exact hs ⟨mem_files_to_send.mpr ⟨k, hl, hne⟩, rfl⟩

/-- What is needed to take the remote map to the local one. -/
theorem plan_subset {localM remoteM : List (Entry κ)} {S D : List Str}
    (h : ∀ p, (patched localM remoteM S D).get? p = (byPath localM).get? p) :
    (compareManifests localM remoteM true).1 ⊆ S ∧
      (compareManifests localM remoteM true).2 ⊆ D := by
  constructor
  · intro p hp
    obtain ⟨k, hk, hne⟩ := mem_files_to_send.mp hp
    have hget := h p
    rw [get?_patched, hk] at hget
    split at hget
    · cases hget
    · split at hget
      · rename_i hs
        exact hs.1
      · exact absurd hget hne
  · intro p hp
    obtain ⟨hno, hsome⟩ := mem_files_to_delete.mp hp
    have hget := h p
    rw [get?_patched, hno] at hget
    split at hget
    · assumption
    · simp only [Option.isSome_none, Bool.false_eq_true, and_false, if_false] at hget
      rw [hget] at hsome
      cases hsome

/-- **A correct and minimal plan.** For all manifests: the two lists are
disjoint and without duplicates; what they say takes the remote map to the local
one; a path whose checksum agrees is in neither, and every plan that takes the
remote map to the local one contains them; and after the plan nothing is left
to do. -/
theorem plan_exact (localM remoteM : List (Entry κ)) :
    let S := (compareManifests localM remoteM true).1
    let D := (compareManifests localM remoteM true).2
    S.Nodup ∧ D.Nodup ∧ S.Disjoint D ∧
      (∀ p, (patched localM remoteM S D).get? p = (byPath localM).get? p) ∧
      (∀ p k, (byPath localM).get? p = some k → (byPath remoteM).get? p = some k →
        p ∉ S ∧ p ∉ D) ∧
      (∀ S' D', (∀ p, (patched localM remoteM S' D').get? p = (byPath localM).get? p) →
        S ⊆ S' ∧ D ⊆ D') ∧
      ∀ again : List (Entry κ), (∀ p, (byPath again).get? p = (patched localM remoteM S D).get? p) →
        compareManifests localM again true = ([], []) := by
  refine ⟨nodup_toSend localM remoteM true, nodup_toDelete localM remoteM, ?_,
    get?_patched_plan localM remoteM, ?_, fun _ _ => plan_subset, fun again h => ?_⟩
  · intro p hs hd
    obtain ⟨k, hk, -⟩ := mem_files_to_send.mp hs
    obtain ⟨hno, -⟩ := mem_files_to_delete.mp hd
    rw [hk] at hno
    cases hno
  · intro p k hl hr
    constructor
    · intro hs
      obtain ⟨k', hk', hne⟩ := mem_files_to_send.mp hs
      rw [hl] at hk'
      cases hk'
      exact hne hr
    · intro hd
      have hno := (mem_files_to_delete.mp hd).1
      rw [hl] at hno
      cases hno
  · exact compareManifests_of_agree fun p => (h p).trans (get?_patched_plan localM remoteM p)

end Wormhole.L4.Rsync
