import Mathlib.Algebra.Order.BigOperators.Group.List
import Mathlib.Algebra.Order.Group.Nat
import Mathlib.Data.Finset.Max
import Wormhole.L4App.Rsync

/-!
# What a transfer does to the listener's files

The client compares two manifests and the listener asks for what differs
(`mem_toSend`, `mem_toDelete`). `receive_plan`: the frames that answer a
request write the requested files one after another, each if its path can be
opened, and then remove the paths to delete.

`synced_finalFiles_iff`: a listener is in sync afterwards exactly when its
working directory is `dest_path` and no file of the source is a directory, or
lies below a file, of the destination, or when it was in sync before.
`contained_iff`: some frame changes a file outside `dest_path`, unless that is
the root; `frames_outside`: frames whose paths lead into it do not.
-/
namespace Wormhole.L4.Rsync
open Wormhole.L1 Wormhole.PosixPath

/-! ## Trees -/

/-- A file name: no part of a path that means something else, and no null byte. -/
structure FileName (c : Str) : Prop extends IsName c where
  no_nul : '\x00' ∉ c

theorem fileName_iff {c : Str} : FileName c ↔
    c ≠ [] ∧ c ≠ ['.'] ∧ '/' ∉ c ∧ c ≠ ['.', '.'] ∧ '\x00' ∉ c :=
  ⟨fun h => ⟨h.ne_nil, h.ne_dot, h.no_slash, h.ne_dotdot, h.no_nul⟩,
    fun ⟨h1, h2, h3, h4, h5⟩ => ⟨⟨⟨h1, h2, h3⟩, h4⟩, h5⟩⟩

instance (c : Str) : Decidable (FileName c) := decidable_of_iff _ fileName_iff.symm

/-- Files below a directory, none of them a directory. -/
structure Tree where
  files : Files
  ne_nil : ∀ p ∈ files.keys, p ≠ []
  names : ∀ p ∈ files.keys, ∀ c ∈ p, FileName c
  leaves : ∀ p ∈ files.keys, ∀ q ∈ files.keys, p <+: q → p = q

/-- The listener's process: its working directory and `dest_path` are
directories. -/
structure Host where
  cwd : Path
  dest : Path
  tree : Tree
  cwd_names : ∀ c ∈ cwd, FileName c
  dest_names : ∀ c ∈ dest, FileName c
  cwd_dir : ∀ p ∈ tree.files.keys, ¬ p <+: cwd
  dest_dir : ∀ p ∈ tree.files.keys, ¬ p <+: dest

/-- No file of the source is a directory of the destination or lies below one
of its files. -/
def Compatible (host : Host) (source : Tree) : Prop :=
  ∀ rel ∈ source.files.keys, ∀ q ∈ host.tree.files.keys,
    q <+: host.dest ++ rel ∨ host.dest ++ rel <+: q → q = host.dest ++ rel

/-- Each source file is under `dest` with its content and, with `delete`, no
other file is. -/
def Synced (source : Files) (dest : Path) (delete : Bool) (files : Files) : Prop :=
  (∀ rel c, source.get? rel = some c → files.get? (dest ++ rel) = some c) ∧
  (delete = true → ∀ p ∈ files.keys, dest <+: p → ∃ rel ∈ source.keys, p = dest ++ rel)

theorem mem_keys_of_get? {files : Files} {p : Path} {c : Bytes} (h : files.get? p = some c) :
    p ∈ files.keys := by
  rw [Dict.mem_keys, h]; rfl

theorem exists_get? {files : Files} {p : Path} (h : p ∈ files.keys) :
    ∃ c, files.get? p = some c := Option.isSome_iff_exists.mp (Dict.mem_keys.mp h)

/-! ## Path strings -/

theorem relString_eq_render (cs : Path) : relString cs = render 0 cs := rfl

theorem components_relString {cs : Path} (h : ∀ c ∈ cs, FileName c) :
    components (relString cs) = cs := by
  rw [relString_eq_render]
  exact components_render fun c hc => (h c hc).toIsPart

theorem isAbs_relString {cs : Path} (h : ∀ c ∈ cs, FileName c) : isAbs (relString cs) = false := by
  have := head_intercalate fun c hc => (h c hc).toIsPart
  exact decide_eq_false this

theorem hasNul_relString {cs : Path} (h : ∀ c ∈ cs, FileName c) :
    hasNul (relString cs) = false := by
  unfold hasNul relString
  rw [← Bool.not_eq_true, List.contains_iff_mem]
  induction cs with
  | nil => simp [List.intercalate]
  | cons c cs ih =>
    have hc := (h c (List.mem_cons_self ..)).no_nul
    have hcs := ih fun d hd => h d (List.mem_cons_of_mem _ hd)
    cases cs with
    | nil => simpa [List.intercalate_singleton] using hc
    | cons d ds =>
      rw [List.intercalate_cons_cons]
      simp only [List.mem_append, List.mem_singleton, not_or]
      exact ⟨⟨hc, by decide⟩, hcs⟩

/-- A relative path string leads below the working directory. -/
theorem locate_relString {cwd cs : Path} (h : ∀ c ∈ cs, FileName c) :
    locate cwd (relString cs) = cwd ++ cs := by
  unfold locate
  rw [isAbs_relString h, components_relString h]
  exact walk_names fun c hc => (h c hc).toIsName

theorem sourceContent_relString {source : Files} {cs : Path} (h : ∀ c ∈ cs, FileName c) :
    sourceContent source (relString cs) = source.get? cs := by
  unfold sourceContent
  rw [isAbs_relString h, components_relString h, walk_names fun c hc => (h c hc).toIsName]
  rfl

theorem relString_inj {cs ds : Path} (hc : ∀ c ∈ cs, FileName c) (hd : ∀ c ∈ ds, FileName c)
    (h : relString cs = relString ds) : cs = ds := by
  rw [← components_relString hc, h, components_relString hd]

/-! ## Manifests -/

variable {κ : Type} {md5 : Bytes ↪ κ}

theorem get?_foldl_set {m : List (Entry κ)} (hn : (m.map Entry.path).Nodup) (d : Dict Str κ)
    (k : Str) (c : κ) :
    (m.foldl (fun d e => d.set e.path e.checksum) d).get? k = some c ↔
      (∃ e ∈ m, e.path = k ∧ e.checksum = c) ∨ (k ∉ m.map Entry.path ∧ d.get? k = some c) := by
  induction m generalizing d with
  | nil => simp
  | cons e m ih =>
    rw [List.map_cons, List.nodup_cons] at hn
    rw [List.foldl_cons, ih hn.2, Dict.get?_set]
    by_cases hk : e.path = k
    · subst hk
      have hno : ¬ ∃ e' ∈ m, e'.path = e.path ∧ e'.checksum = c :=
        fun ⟨e', he', hp, _⟩ => hn.1 (List.mem_map.mpr ⟨e', he', hp⟩)
      simp [hno, hn.1]
    · have hk' : k ≠ e.path := fun h => hk h.symm
      simp [hk, hk']

theorem mem_scanDirectory {files : Files} {base : Path} {e : Entry κ} :
    e ∈ scanDirectory md5 files base ↔
      ∃ rel c, rel ≠ [] ∧ files.get? (base ++ rel) = some c ∧
        e = ⟨relString rel, md5 c⟩ := by
  unfold scanDirectory
  rw [List.mem_filterMap]
  constructor
  · rintro ⟨⟨p, c⟩, hp, he⟩
    simp only at he
    split at he
    · rename_i hb
      cases he
      obtain ⟨⟨rel, rfl⟩, hne⟩ := hb
      rw [List.drop_left]
      exact ⟨rel, c, fun h => hne (by simp [h]), Dict.mem_entries.mp hp, rfl⟩
    · cases he
  · rintro ⟨rel, c, hne, hg, rfl⟩
    refine ⟨(base ++ rel, c), Dict.mem_entries.mpr hg, ?_⟩
    have hb : base ≠ base ++ rel := fun h => hne (List.self_eq_append_right.mp h)
    simp [hb]

theorem nodup_scanDirectory {files : Files} {base : Path}
    (hf : ∀ p ∈ files.keys, ∀ c ∈ p, FileName c) :
    ((scanDirectory md5 files base).map Entry.path).Nodup := by
  have hn : files.entries.Pairwise fun a b => a.1 ≠ b.1 := List.pairwise_map.mp files.nodup
  unfold scanDirectory
  rw [List.nodup_iff_pairwise_ne, List.pairwise_map, List.pairwise_filterMap]
  refine hn.imp_of_mem ?_
  intro a b ha hb hab x hx y hy hxy
  split at hx
  · rename_i ha'
    split at hy
    · rename_i hb'
      cases hx
      cases hy
      obtain ⟨⟨ra, hra⟩, -⟩ := ha'
      obtain ⟨⟨rb, hrb⟩, -⟩ := hb'
      have hka : a.1 ∈ files.keys := List.mem_map.mpr ⟨a, ha, rfl⟩
      have hkb : b.1 ∈ files.keys := List.mem_map.mpr ⟨b, hb, rfl⟩
      have hna := hf _ hka
      have hnb := hf _ hkb
      rw [← hra, List.drop_left, ← hrb, List.drop_left] at hxy
      rw [← hra] at hna
      rw [← hrb] at hnb
      have he : ra = rb :=
        relString_inj (fun c hc => hna c (by simp [hc])) (fun c hc => hnb c (by simp [hc])) hxy
      exact hab (by rw [← hra, ← hrb, he])
    · cases hy
  · cases hx

/-- What a scan says of a path. -/
theorem get?_scan {files : Files} {base : Path} (hf : ∀ p ∈ files.keys, ∀ c ∈ p, FileName c)
    {x : Str} {k : κ} :
    (byPath (scanDirectory md5 files base)).get? x = some k ↔
      ∃ rel c, rel ≠ [] ∧ files.get? (base ++ rel) = some c ∧ relString rel = x ∧ md5 c = k := by
  unfold byPath
  rw [get?_foldl_set (nodup_scanDirectory hf)]
  simp only [Dict.get?_empty, reduceCtorEq, and_false, or_false, mem_scanDirectory]
  constructor
  · rintro ⟨e, ⟨rel, c, hne, hg, rfl⟩, rfl, rfl⟩
    exact ⟨rel, c, hne, hg, rfl, rfl⟩
  · rintro ⟨rel, c, hne, hg, rfl, rfl⟩
    exact ⟨_, ⟨rel, c, hne, hg, rfl⟩, rfl, rfl⟩

theorem fileNames_of_keys {files : Files} (hf : ∀ p ∈ files.keys, ∀ c ∈ p, FileName c)
    {base rel : Path} (h : base ++ rel ∈ files.keys) : ∀ c ∈ rel, FileName c :=
  fun c hc => hf _ h c (by simp [hc])

/-- What one scan says of a file of another: its content there. -/
theorem get?_scan_relString {files : Files} {base : Path}
    (hf : ∀ p ∈ files.keys, ∀ c ∈ p, FileName c) {rel : Path} (hne : rel ≠ [])
    (hr : ∀ c ∈ rel, FileName c) {k : κ} :
    (byPath (scanDirectory md5 files base)).get? (relString rel) = some k ↔
      ∃ c, files.get? (base ++ rel) = some c ∧ md5 c = k := by
  rw [get?_scan hf]
  constructor
  · rintro ⟨rel', c, -, hg, hs, hk⟩
    rw [relString_inj (fileNames_of_keys hf (mem_keys_of_get? hg)) hr hs] at hg
    exact ⟨c, hg, hk⟩
  · rintro ⟨c, hg, hk⟩
    exact ⟨rel, c, hne, hg, rfl, hk⟩

/-- The manifests of a source tree and of a listener. -/
abbrev sourceManifest (md5 : Bytes ↪ κ) (source : Tree) : List (Entry κ) :=
  scanDirectory md5 source.files []

abbrev hostManifest (md5 : Bytes ↪ κ) (host : Host) : List (Entry κ) :=
  scanDirectory md5 host.tree.files host.dest

variable [DecidableEq κ]

/-- **What is asked for**: the source files that the destination lacks or has
with another content. -/
theorem mem_toSend {source : Tree} {host : Host} {delete : Bool} {x : Str} :
    x ∈ (compareManifests (sourceManifest md5 source) (hostManifest md5 host) delete).1 ↔
      ∃ rel c, source.files.get? rel = some c ∧ x = relString rel ∧
        host.tree.files.get? (host.dest ++ rel) ≠ some c := by
  simp only [compareManifests, List.mem_map, List.mem_filter, decide_eq_true_eq]
  constructor
  · rintro ⟨⟨y, k⟩, ⟨hy, hne⟩, rfl⟩
    rw [Dict.mem_entries, get?_scan source.names] at hy
    obtain ⟨rel, c, hrel, hg, hs, hk⟩ := hy
    simp only at hs hk hne
    subst hs hk
    rw [List.nil_append] at hg
    refine ⟨rel, c, hg, rfl, fun hc => hne ?_⟩
    exact (get?_scan_relString host.tree.names hrel
      (source.names _ (mem_keys_of_get? hg))).mpr ⟨c, hc, rfl⟩
  · rintro ⟨rel, c, hg, rfl, hc⟩
    have hk := mem_keys_of_get? hg
    refine ⟨(relString rel, md5 c), ⟨?_, fun h => hc ?_⟩, rfl⟩
    · rw [Dict.mem_entries, get?_scan source.names]
      exact ⟨rel, c, source.ne_nil _ hk, by rwa [List.nil_append], rfl, rfl⟩
    · obtain ⟨c', hg', he⟩ :=
        (get?_scan_relString host.tree.names (source.ne_nil _ hk) (source.names _ hk)).mp h
      rw [hg', md5.injective he]

/-- **What is to be deleted**: the files of the destination that the source
lacks. -/
theorem mem_toDelete {source : Tree} {host : Host} {delete : Bool} {x : Str} :
    x ∈ (compareManifests (sourceManifest md5 source) (hostManifest md5 host) delete).2 ↔
      delete = true ∧ ∃ rel, rel ≠ [] ∧ host.dest ++ rel ∈ host.tree.files.keys ∧
        rel ∉ source.files.keys ∧ x = relString rel := by
  cases delete with
  | false => simp [compareManifests]
  | true =>
    simp only [compareManifests, if_true, List.mem_map, List.mem_filter, decide_eq_true_eq,
      true_and]
    constructor
    · rintro ⟨⟨y, k⟩, ⟨hy, hno⟩, rfl⟩
      rw [Dict.mem_entries, get?_scan host.tree.names] at hy
      obtain ⟨rel, c, hrel, hg, hs, hk⟩ := hy
      simp only at hs hno
      subst hs
      refine ⟨rel, hrel, mem_keys_of_get? hg, fun hm => ?_, rfl⟩
      obtain ⟨c', hc'⟩ := exists_get? hm
      have : (byPath (scanDirectory md5 source.files [])).get? (relString rel) = some (md5 c') :=
        (get?_scan_relString source.names hrel (source.names _ hm)).mpr
          ⟨c', by rwa [List.nil_append], rfl⟩
      rw [hno] at this
      cases this
    · rintro ⟨rel, hrel, hm, hno, rfl⟩
      obtain ⟨c, hc⟩ := exists_get? hm
      have hn := fileNames_of_keys host.tree.names (mem_keys_of_get? hc)
      refine ⟨(relString rel, md5 c), ⟨?_, ?_⟩, rfl⟩
      · rw [Dict.mem_entries, get?_scan host.tree.names]
        exact ⟨rel, c, hrel, hc, rfl, rfl⟩
      · rw [Option.eq_none_iff_forall_ne_some]
        intro k hk
        obtain ⟨c', hg, -⟩ := (get?_scan_relString source.names hrel hn).mp hk
        rw [List.nil_append] at hg
        exact hno (mem_keys_of_get? hg)

/-! ## The frames of a transfer -/

/-- A receiver after some frames of the client: other files, no file open. -/
structure After (r : Receiver) (files : Files) (done : Bool) (r' : Receiver) : Prop where
  cwd : r'.cwd = r.cwd
  dest : r'.dest = r.dest
  files : r'.files = files
  handle : r'.handle = none
  done : r'.done = done

omit [DecidableEq κ] in
/-- Data frames append to the open file. -/
theorem receive_data {r : Receiver} {p : Path} {old : Bytes} (hh : r.handle = some p)
    (hf : r.files.get? p = some old) (cs : List Bytes) :
    ∃ n, (cs.map (Frame.fileData (κ := κ))).foldl receive r =
      { r with
        files := r.files.set p (old ++ cs.flatten)
        bytesTransferred := n } := by
  induction cs generalizing r old with
  | nil => exact ⟨r.bytesTransferred, by simp [Dict.set_get? hf]⟩
  | cons c cs ih =>
    have hr : receive r (Frame.fileData (κ := κ) c) =
        { r with
          files := r.files.set p (old ++ c)
          bytesTransferred := r.bytesTransferred + c.length } := by
      simp only [receive, handleFileData, hh, hf]
    have hfile : (receive r (Frame.fileData (κ := κ) c)).files.get? p = some (old ++ c) := by
      rw [hr]
      exact Dict.get?_set_self _ _ _
    obtain ⟨n, hn⟩ := ih (by rw [hr]; exact hh) hfile
    refine ⟨n, ?_⟩
    rw [List.map_cons, List.foldl_cons, hn, hr]
    simp [Dict.set_set]

omit [DecidableEq κ] in
/-- Data frames without an open file do nothing. -/
theorem receive_data_closed {r : Receiver} (hh : r.handle = none) (cs : List Bytes) :
    (cs.map (Frame.fileData (κ := κ))).foldl receive r = r := by
  induction cs with
  | nil => rfl
  | cons c cs ih =>
    have hr : receive r (Frame.fileData (κ := κ) c) = r := by
      simp only [receive, handleFileData, hh]
    rw [List.map_cons, List.foldl_cons, hr, ih]

/-- The files after one file was sent: written if its path can be opened. -/
def writeFile (cwd dest : Path) (files : Files) (x : Str) (content : Bytes) : Files :=
  if !hasNul x && canOpen cwd dest files (locate cwd x) then files.set (locate cwd x) content
  else files

omit [DecidableEq κ] in
theorem receive_sendFile {r : Receiver} (hh : r.handle = none) (x : Str) (content : Bytes) :
    After r (writeFile r.cwd r.dest r.files x content) r.done
      ((sendFile (κ := κ) x content).foldl receive r) := by
  unfold sendFile writeFile
  rw [List.cons_append, List.foldl_cons, List.foldl_append, List.foldl_cons, List.foldl_nil]
  by_cases ho : (!hasNul x && canOpen r.cwd r.dest r.files (locate r.cwd x)) = true
  · have hr : receive r (Frame.fileStart (κ := κ) x) =
        { r with
          files := r.files.set (locate r.cwd x) []
          handle := some (locate r.cwd x) } := by
      simp only [receive, handleFileStart, ho, if_true]
    have hfile : (receive r (Frame.fileStart (κ := κ) x)).files.get? (locate r.cwd x) =
        some [] := by
      rw [hr]
      exact Dict.get?_set_self _ _ _
    obtain ⟨n, hn⟩ := receive_data (by rw [hr]) hfile (reads 32768 content.length content)
    rw [hn, hr, if_pos ho]
    refine ⟨rfl, rfl, ?_, rfl, rfl⟩
    simp only [receive, handleFileEnd, Dict.set_set, List.nil_append,
      flatten_reads (by omega : 0 < 32768) (Nat.le_refl _)]
  · have hr : receive r (Frame.fileStart (κ := κ) x) = r := by
      simp only [receive, handleFileStart, ho, Bool.false_eq_true, if_false]
    rw [hr, receive_data_closed hh, if_neg ho]
    simp only [receive, handleFileEnd, hh]
    exact ⟨rfl, rfl, rfl, hh, rfl⟩

/-- The files after the requested files were sent. -/
def writeAll (cwd dest : Path) (source : Files) : Files → List Str → Files
  | files, [] => files
  | files, x :: xs =>
    writeAll cwd dest source
      (match sourceContent source x with
        | some content => writeFile cwd dest files x content
        | none => files) xs

omit [DecidableEq κ] in
theorem receive_requested (source : Files) (xs : List Str) {r : Receiver} (hh : r.handle = none) :
    After r (writeAll r.cwd r.dest source r.files xs) r.done
      ((xs.flatMap (sendOne (κ := κ) source)).foldl receive r) := by
  induction xs generalizing r with
  | nil => exact ⟨rfl, rfl, rfl, hh, rfl⟩
  | cons x xs ih =>
    rw [List.flatMap_cons, List.foldl_append, writeAll, sendOne]
    cases sourceContent source x with
    | none => exact ih hh
    | some content =>
      have h1 := receive_sendFile (κ := κ) hh x content
      have h2 := ih h1.handle
      refine ⟨h2.cwd.trans h1.cwd, h2.dest.trans h1.dest, ?_, h2.handle, h2.done.trans h1.done⟩
      rw [h2.files, h1.cwd, h1.dest, h1.files]

/-- The files after a whole transfer. -/
def transferred (cwd dest : Path) (source files : Files) (requested toDelete : List Str) : Files :=
  unlinkAll cwd dest (writeAll cwd dest source files requested) (toDelete.map some)

omit [DecidableEq κ] in
/-- **The frames of a transfer** write the requested files and remove the paths
to delete. -/
theorem receive_plan (source : Files) (requested toDelete : List Str) {r : Receiver}
    (hh : r.handle = none) :
    After r (transferred r.cwd r.dest source r.files requested toDelete) true
      ((sendRequested (κ := κ) source requested toDelete).foldl receive r) := by
  have h := receive_requested (κ := κ) source requested hh
  unfold sendRequested
  rw [List.foldl_append, List.foldl_append]
  split
  · rename_i hd
    subst hd
    exact ⟨h.cwd, h.dest, h.files, h.handle, rfl⟩
  · refine ⟨h.cwd, h.dest, ?_, h.handle, rfl⟩
    simp only [List.foldl_cons, List.foldl_nil, receive]
    rw [h.cwd, h.dest, h.files]
    rfl

/-! ## A compatible transfer into the working directory -/

/-- `base` with the files `written` of the source in place under `dest`. -/
def overlay (dest : Path) (source base : Files) (written : List Path) (q : Path) : Option Bytes :=
  if written.any (fun rel => q = dest ++ rel) then source.get? (q.drop dest.length) else base.get? q

theorem overlay_written {dest : Path} {source base : Files} {written : List Path} {rel : Path}
    (h : rel ∈ written) : overlay dest source base written (dest ++ rel) = source.get? rel := by
  unfold overlay
  rw [if_pos (List.any_eq_true.mpr ⟨rel, h, by simp⟩), List.drop_left]

theorem overlay_base {dest : Path} {source base : Files} {written : List Path} {q : Path}
    (h : ∀ rel ∈ written, q ≠ dest ++ rel) : overlay dest source base written q = base.get? q := by
  unfold overlay
  rw [if_neg]
  simpa using h

/-- A path of an overlay is a written one or one of the base. -/
theorem overlay_keys {dest : Path} {source base files : Files} {written : List Path}
    (hf : ∀ q, files.get? q = overlay dest source base written q) {q : Path}
    (hq : q ∈ files.keys) : (∃ rel ∈ written, q = dest ++ rel) ∨ q ∈ base.keys := by
  by_cases hw : ∃ rel ∈ written, q = dest ++ rel
  · exact .inl hw
  · right
    obtain ⟨c, hc⟩ := exists_get? hq
    rw [hf, overlay_base fun rel hrel he => hw ⟨rel, hrel, he⟩] at hc
    exact mem_keys_of_get? hc

theorem isDir_eq_false {cwd dest : Path} {files : Files} {p : Path} :
    isDir cwd dest files p = false ↔
      ¬ p <+: cwd ∧ ¬ p <+: dest ∧ ∀ q ∈ files.keys, p <+: q → p = q := by
  simp [isDir, List.isPrefixOf_iff_prefix, and_assoc, ← Bool.not_eq_true]

theorem canOpen_iff {cwd dest : Path} {files : Files} {p : Path} :
    canOpen cwd dest files p = true ↔
      isDir cwd dest files p = false ∧ ∀ q ∈ files.keys, q <+: p → q = p := by
  simp [canOpen, List.isPrefixOf_iff_prefix, ← Bool.not_eq_true]

theorem not_prefix_append {dest rel : Path} (h : rel ≠ []) : ¬ (dest ++ rel) <+: dest := by
  intro hp
  have hl := hp.length_le
  have := List.length_pos_iff.mpr h
  simp only [List.length_append] at hl
  omega

variable {host : Host} {source : Tree}

/-- A source file is no directory of a compatible destination. -/
theorem not_isDir_dest (hcd : host.cwd = host.dest) {rel : Path} (hrel : rel ≠ []) {files : Files}
    (h : ∀ q ∈ files.keys, host.dest ++ rel <+: q → host.dest ++ rel = q) :
    isDir host.cwd host.dest files (host.dest ++ rel) = false := by
  rw [isDir_eq_false, hcd]
  exact ⟨not_prefix_append hrel, not_prefix_append hrel, h⟩

/-- Writing files of the source, one after another. -/
theorem get?_writeAll (hcd : host.cwd = host.dest) (hc : Compatible host source)
    (xs : List Path) (hxs : ∀ rel ∈ xs, rel ∈ source.files.keys) {written : List Path}
    (hw : ∀ rel ∈ written, rel ∈ source.files.keys) {files : Files}
    (hf : ∀ q, files.get? q = overlay host.dest source.files host.tree.files written q) (q : Path) :
    (writeAll host.cwd host.dest source.files files (xs.map relString)).get? q =
      overlay host.dest source.files host.tree.files (written ++ xs) q := by
  induction xs generalizing written files with
  | nil => rw [List.append_nil]; exact hf q
  | cons rel xs ih =>
    have hrel := hxs rel (List.mem_cons_self ..)
    have hn := source.names rel hrel
    obtain ⟨c, hget⟩ := exists_get? hrel
    -- nothing written so far, and nothing of the destination, is above or below
    have hab : ∀ k ∈ files.keys, (k <+: host.dest ++ rel ∨ host.dest ++ rel <+: k) →
        k = host.dest ++ rel := by
      intro k hk hp
      obtain ⟨rel', hr', rfl⟩ | hb := overlay_keys hf hk
      · rw [List.prefix_append_right_inj, List.prefix_append_right_inj] at hp
        obtain hp | hp := hp
        · rw [source.leaves _ (hw _ hr') _ hrel hp]
        · rw [source.leaves _ hrel _ (hw _ hr') hp]
      · exact hc rel hrel k hb hp
    have hopen : canOpen host.cwd host.dest files (host.dest ++ rel) = true :=
      canOpen_iff.mpr ⟨not_isDir_dest hcd (source.ne_nil rel hrel)
        fun k hk hp => (hab k hk (.inr hp)).symm, fun k hk hp => hab k hk (.inl hp)⟩
    rw [List.map_cons, writeAll, sourceContent_relString hn, hget]
    simp only
    have hwrite : writeFile host.cwd host.dest files (relString rel) c =
        files.set (host.dest ++ rel) c := by
      unfold writeFile
      rw [locate_relString hn, hcd] at *
      rw [hopen, hasNul_relString hn]
      rfl
    rw [hwrite]
    have hsplit : written ++ rel :: xs = (written ++ [rel]) ++ xs := by simp
    rw [hsplit]
    refine ih (fun r hr => hxs r (List.mem_cons_of_mem _ hr)) (fun r hr => ?_) (fun k => ?_)
    · obtain hr | hr := List.mem_append.mp hr
      · exact hw r hr
      · rwa [List.mem_singleton.mp hr]
    · rw [Dict.get?_set]
      split
      · rename_i hk
        subst hk
        rw [overlay_written (by simp), hget]
      · rename_i hk
        rw [hf]
        unfold overlay
        have hk' : ¬ k = host.dest ++ rel := fun h => hk h.symm
        simp [hk']

/-- Removing paths that are no directories. -/
theorem get?_unlinkAll {cwd dest : Path} {files : Files} {xs : List Path}
    (hn : ∀ rel ∈ xs, ∀ c ∈ rel, FileName c)
    (hd : ∀ rel ∈ xs, isDir cwd dest files (cwd ++ rel) = false) (q : Path) :
    (unlinkAll cwd dest files ((xs.map relString).map some)).get? q =
      if q ∈ xs.map (cwd ++ ·) then none else files.get? q := by
  induction xs generalizing files with
  | nil => simp [unlinkAll]
  | cons rel xs ih =>
    have hrel := hn rel (List.mem_cons_self ..)
    have hxs := fun r hr => hn r (List.mem_cons_of_mem _ hr)
    have hdir := hd rel (List.mem_cons_self ..)
    have hdirs := fun r hr => hd r (List.mem_cons_of_mem _ hr)
    rw [List.map_cons, List.map_cons, unlinkAll]
    simp only [hasNul_relString hrel, locate_relString hrel, Bool.false_eq_true, if_false, hdir]
    by_cases hm : files.contains (cwd ++ rel) = true
    · rw [if_pos hm, ih hxs, Dict.get?_del]
      · by_cases hq : q = cwd ++ rel
        · subst hq; simp
        · have hq' : ¬ cwd ++ rel = q := fun h => hq h.symm
          simp [hq, hq']
      · intro r hr
        have h := isDir_eq_false.mp (hdirs r hr)
        refine isDir_eq_false.mpr ⟨h.1, h.2.1, fun k hk hp => h.2.2 k ?_ hp⟩
        rw [Dict.mem_keys, Dict.get?_del] at hk
        split at hk
        · cases hk
        · exact Dict.mem_keys.mpr hk
    · rw [if_neg hm, ih hxs hdirs]
      by_cases hq : q = cwd ++ rel
      · subst hq
        have hnone : files.get? (cwd ++ rel) = none := by
          simpa using hm
        simp [hnone]
      · simp [hq]

/-- The requests and deletions of a transfer as lists of relative paths. -/
theorem map_relString {xs : List Str} (h : ∀ x ∈ xs, ∃ rel, (∀ c ∈ rel, FileName c) ∧
    x = relString rel) : (xs.map components).map relString = xs := by
  rw [List.map_map]
  conv_rhs => rw [← List.map_id xs]
  refine List.map_congr_left fun x hx => ?_
  obtain ⟨rel, hn, rfl⟩ := h x hx
  simp [components_relString hn]

/-- What the listener asks for, and what the client then asks to delete. -/
def requestOf (md5 : Bytes ↪ κ) (source : Tree) (host : Host) : List Str :=
  (compareManifests (sourceManifest md5 source) (hostManifest md5 host) false).1

def deletionsOf (md5 : Bytes ↪ κ) (source : Tree) (host : Host) (delete : Bool) : List Str :=
  (compareManifests (sourceManifest md5 source) (hostManifest md5 host) delete).2

theorem mem_request {source : Tree} {host : Host} {rel : Path} :
    rel ∈ (requestOf md5 source host).map components ↔
      ∃ c, source.files.get? rel = some c ∧ host.tree.files.get? (host.dest ++ rel) ≠ some c := by
  rw [List.mem_map]
  constructor
  · rintro ⟨x, hx, rfl⟩
    obtain ⟨rel, c, hg, rfl, hne⟩ := mem_toSend.mp hx
    rw [components_relString (source.names _ (mem_keys_of_get? hg))]
    exact ⟨c, hg, hne⟩
  · rintro ⟨c, hg, hne⟩
    exact ⟨relString rel, mem_toSend.mpr ⟨rel, c, hg, rfl, hne⟩,
      components_relString (source.names _ (mem_keys_of_get? hg))⟩

theorem mem_deletions {source : Tree} {host : Host} {delete : Bool} {rel : Path} :
    rel ∈ (deletionsOf md5 source host delete).map components ↔
      delete = true ∧ rel ≠ [] ∧ host.dest ++ rel ∈ host.tree.files.keys ∧
        rel ∉ source.files.keys := by
  rw [List.mem_map]
  constructor
  · rintro ⟨x, hx, rfl⟩
    obtain ⟨hd, rel, hne, hk, hno, rfl⟩ := mem_toDelete.mp hx
    rw [components_relString (fileNames_of_keys host.tree.names hk)]
    exact ⟨hd, hne, hk, hno⟩
  · rintro ⟨hd, hne, hk, hno⟩
    exact ⟨relString rel, mem_toDelete.mpr ⟨hd, rel, hne, hk, hno, rfl⟩,
      components_relString (fileNames_of_keys host.tree.names hk)⟩

/-- The listener's files after a transfer. -/
def finalFiles (md5 : Bytes ↪ κ) (source : Tree) (host : Host) (delete : Bool) : Files :=
  transferred host.cwd host.dest source.files host.tree.files (requestOf md5 source host)
    (deletionsOf md5 source host delete)

/-- The final files, path by path: what was requested over what was there, less
what was deleted. -/
theorem get?_finalFiles (md5 : Bytes ↪ κ) (hcd : host.cwd = host.dest)
    (hc : Compatible host source) (delete : Bool) :
    ∃ xs ds : List Path,
      (∀ rel ∈ xs, rel ∈ source.files.keys) ∧
      (∀ rel, rel ∈ xs ↔ ∃ c, source.files.get? rel = some c ∧
        host.tree.files.get? (host.dest ++ rel) ≠ some c) ∧
      (∀ rel, rel ∈ ds ↔ delete = true ∧ rel ≠ [] ∧ host.dest ++ rel ∈ host.tree.files.keys ∧
        rel ∉ source.files.keys) ∧
      ∀ q, (finalFiles md5 source host delete).get? q =
        if q ∈ ds.map (host.dest ++ ·) then none
        else overlay host.dest source.files host.tree.files xs q := by
  have hR : ∀ x ∈ requestOf md5 source host,
      ∃ rel, (∀ c ∈ rel, FileName c) ∧ x = relString rel := by
    intro x hx
    obtain ⟨rel, c, hg, rfl, -⟩ := mem_toSend.mp hx
    exact ⟨rel, source.names _ (mem_keys_of_get? hg), rfl⟩
  have hD : ∀ x ∈ deletionsOf md5 source host delete,
      ∃ rel, (∀ c ∈ rel, FileName c) ∧ x = relString rel := by
    intro x hx
    obtain ⟨-, rel, -, hk, -, rfl⟩ := mem_toDelete.mp hx
    exact ⟨rel, fileNames_of_keys host.tree.names hk, rfl⟩
  have hsrc : ∀ rel ∈ (requestOf md5 source host).map components, rel ∈ source.files.keys := by
    intro rel hrel
    obtain ⟨c, hg, -⟩ := mem_request.mp hrel
    exact mem_keys_of_get? hg
  refine ⟨(requestOf md5 source host).map components,
    (deletionsOf md5 source host delete).map components, hsrc, fun _ => mem_request,
    fun _ => mem_deletions, fun q => ?_⟩
  have hw := get?_writeAll hcd hc ((requestOf md5 source host).map components) hsrc
    (fun rel hrel => absurd hrel List.not_mem_nil) fun q => rfl
  simp only [List.nil_append] at hw
  unfold finalFiles transferred
  conv_lhs => rw [← map_relString hD, ← map_relString hR]
  rw [get?_unlinkAll, hw q, hcd]
  · intro rel hrel
    obtain ⟨-, -, hk, -⟩ := mem_deletions.mp hrel
    exact fileNames_of_keys host.tree.names hk
  · intro rel hrel
    obtain ⟨-, hne, hk, hno⟩ := mem_deletions.mp hrel
    have hcd' : host.cwd ++ rel = host.dest ++ rel := by rw [hcd]
    rw [hcd']
    refine not_isDir_dest hcd hne fun k hkey hp => ?_
    obtain ⟨rel', hr', rfl⟩ | hb := overlay_keys hw hkey
    · have := hc rel' (hsrc rel' hr') _ hk (.inl hp)
      exact absurd (List.append_cancel_left this ▸ hsrc rel' hr') hno
    · exact host.tree.leaves _ hk _ hb hp

/-- **A compatible transfer into the working directory synchronises.** -/
theorem synced_of_compatible (hcd : host.cwd = host.dest) (hc : Compatible host source)
    (delete : Bool) :
    Synced source.files host.dest delete (finalFiles md5 source host delete) := by
  obtain ⟨xs, ds, hsrc, hxs, hds, hfin⟩ := get?_finalFiles md5 hcd hc delete
  constructor
  · intro rel c hg
    have hk := mem_keys_of_get? hg
    rw [hfin, if_neg]
    · by_cases hrel : rel ∈ xs
      · rw [overlay_written hrel, hg]
      · have hbase : ∀ r ∈ xs, host.dest ++ rel ≠ host.dest ++ r := by
          intro r hr he
          rw [List.append_cancel_left he] at hrel
          exact hrel hr
        rw [overlay_base hbase]
        by_contra hne
        exact hrel ((hxs rel).mpr ⟨c, hg, hne⟩)
    · rw [List.mem_map]
      rintro ⟨r, hr, he⟩
      exact ((hds r).mp hr).2.2.2 (List.append_cancel_left he ▸ hk)
  · intro hd q hq hp
    obtain ⟨c, hget⟩ := exists_get? hq
    rw [hfin] at hget
    split at hget
    · cases hget
    · rename_i hno
      by_cases hw : ∃ rel ∈ xs, q = host.dest ++ rel
      · obtain ⟨rel, hrel, rfl⟩ := hw
        exact ⟨rel, hsrc rel hrel, rfl⟩
      · rw [overlay_base fun r hr he => hw ⟨r, hr, he⟩] at hget
        have hk := mem_keys_of_get? hget
        obtain ⟨rel, rfl⟩ := hp
        by_contra hne
        have hrel : rel ≠ [] := by
          rintro rfl
          rw [List.append_nil] at hk
          exact host.dest_dir _ hk List.prefix_rfl
        refine hno (List.mem_map.mpr ⟨rel, (hds rel).mpr ⟨hd, hrel, hk, fun h => ?_⟩, rfl⟩)
        exact hne ⟨rel, h, rfl⟩

/-! ## Conflicts -/

theorem mem_keys_writeFile {cwd dest q : Path} {files : Files} (x : Str) (content : Bytes)
    (hq : q ∈ files.keys) : q ∈ (writeFile cwd dest files x content).keys := by
  unfold writeFile
  split
  · rw [Dict.mem_keys, Dict.get?_set]
    split
    · rfl
    · exact Dict.mem_keys.mp hq
  · exact hq

theorem mem_keys_writeAll {cwd dest q : Path} {src files : Files} (xs : List Str)
    (hq : q ∈ files.keys) : q ∈ (writeAll cwd dest src files xs).keys := by
  induction xs generalizing files with
  | nil => exact hq
  | cons x xs ih =>
    rw [writeAll]
    split
    · exact ih (mem_keys_writeFile x _ hq)
    · exact ih hq

/-- A path with a file above it or below it is never opened. -/
theorem writeFile_conflict {cwd dest : Path} {files : Files} {p q : Path} (hq : q ∈ files.keys)
    (hpq : q <+: p ∨ p <+: q) (hne : q ≠ p) (hp : p ∉ files.keys) (x : Str) (content : Bytes) :
    p ∉ (writeFile cwd dest files x content).keys := by
  unfold writeFile
  split
  · rename_i ho
    rw [Bool.and_eq_true] at ho
    obtain ⟨hdir, hbelow⟩ := canOpen_iff.mp ho.2
    have hx : locate cwd x ≠ p := by
      rintro rfl
      obtain h | h := hpq
      · exact hne (hbelow q hq h)
      · exact hne ((isDir_eq_false.mp hdir).2.2 q hq h).symm
    rw [Dict.mem_keys, Dict.get?_set, if_neg hx]
    exact fun h => hp (Dict.mem_keys.mpr h)
  · exact hp

theorem writeAll_conflict {cwd dest : Path} {src files : Files} {p q : Path} (hq : q ∈ files.keys)
    (hpq : q <+: p ∨ p <+: q) (hne : q ≠ p) (hp : p ∉ files.keys) (xs : List Str) :
    p ∉ (writeAll cwd dest src files xs).keys := by
  induction xs generalizing files with
  | nil => exact hp
  | cons x xs ih =>
    rw [writeAll]
    split
    · exact ih (mem_keys_writeFile x _ hq) (writeFile_conflict hq hpq hne hp x _)
    · exact ih hq hp

theorem get?_of_unlinkAll {cwd dest : Path} {files : Files} {q : Path} {c : Bytes}
    (xs : List (Option Str)) (h : (unlinkAll cwd dest files xs).get? q = some c) :
    files.get? q = some c := by
  induction xs generalizing files with
  | nil => exact h
  | cons x xs ih =>
    cases x with
    | none => exact h
    | some x =>
      rw [unlinkAll] at h
      split at h
      · exact ih h
      · split at h
        · have hdel := ih h
          rw [Dict.get?_del] at hdel
          split at hdel
          · cases hdel
          · exact hdel
        · split at h
          · exact h
          · exact ih h

/-- **A conflict is not synchronised**, whatever the working directory. -/
theorem not_synced_of_conflict (hc : ¬ Compatible host source) (delete : Bool) :
    ¬ Synced source.files host.dest delete (finalFiles md5 source host delete) := by
  intro hs
  simp only [Compatible, not_forall] at hc
  obtain ⟨rel, hrel, q, hq, hpq, hne⟩ := hc
  have hp : host.dest ++ rel ∉ host.tree.files.keys := by
    intro hk
    obtain h | h := hpq
    · exact hne (host.tree.leaves _ hq _ hk h)
    · exact hne (host.tree.leaves _ hk _ hq h).symm
  obtain ⟨c, hg⟩ := exists_get? hrel
  have hw := get?_of_unlinkAll _ (hs.1 rel c hg)
  exact writeAll_conflict hq hpq hne hp _ (mem_keys_of_get? hw)

/-! ## A transfer into another directory -/

/-- Only the paths to delete are removed. -/
theorem get?_unlinkAll_ne {cwd dest q : Path} {files : Files} (xs : List (Option Str))
    (hx : ∀ x, some x ∈ xs → locate cwd x ≠ q) :
    (unlinkAll cwd dest files xs).get? q = files.get? q := by
  induction xs generalizing files with
  | nil => rfl
  | cons x xs ih =>
    have hxs := fun y hy => hx y (List.mem_cons_of_mem _ hy)
    cases x with
    | none => rfl
    | some x =>
      rw [unlinkAll]
      split
      · exact ih hxs
      · split
        · rw [ih hxs, Dict.get?_del_ne _ (hx x (List.mem_cons_self ..))]
        · split
          · rfl
          · exact ih hxs

/-- Only the requested paths are written. -/
theorem get?_writeAll_ne {cwd dest q : Path} {src files : Files} (xs : List Str)
    (hx : ∀ x ∈ xs, locate cwd x ≠ q) :
    (writeAll cwd dest src files xs).get? q = files.get? q := by
  induction xs generalizing files with
  | nil => rfl
  | cons x xs ih =>
    have hne := hx x (List.mem_cons_self ..)
    rw [writeAll, ih fun y hy => hx y (List.mem_cons_of_mem _ hy)]
    split
    · unfold writeFile
      split
      · rw [Dict.get?_set_ne _ _ hne]
      · rfl
    · rfl

/-- Paths that all lead, from one directory, to where another of them leads from
a second one: the two directories are the same. A shortest and a longest path
of the list cannot both be matched otherwise. -/
theorem eq_of_shift {a b : Path} (xs : List Path) (hne : xs ≠ [])
    (h : ∀ x ∈ xs, ∃ y ∈ xs, a ++ y = b ++ x) : a = b := by
  obtain ⟨z, hz⟩ := List.exists_mem_of_ne_nil xs hne
  have hS : xs.toFinset.Nonempty := ⟨z, List.mem_toFinset.mpr hz⟩
  obtain ⟨lo, hlo, hmin⟩ := xs.toFinset.exists_min_image List.length hS
  obtain ⟨hi, hhi, hmax⟩ := xs.toFinset.exists_max_image List.length hS
  simp only [List.mem_toFinset] at hlo hhi hmin hmax
  obtain ⟨y, hy, he⟩ := h lo hlo
  obtain ⟨z, hz, hf⟩ := h hi hhi
  have hle := congrArg List.length he
  have hlf := congrArg List.length hf
  simp only [List.length_append] at hle hlf
  have hlen : a.length = b.length := by
    have := hmin y hy
    have := hmax z hz
    omega
  exact (List.append_inj he hlen).1

/-- **A transfer into another directory synchronises nothing**: the destination
is in sync afterwards if and only if it was before. -/
theorem synced_displaced (hne : host.cwd ≠ host.dest) {delete : Bool}
    (hs : Synced source.files host.dest delete (finalFiles md5 source host delete)) :
    Synced source.files host.dest delete host.tree.files := by
  constructor
  · -- the requested paths are shifted from `dest` to the working directory
    intro rel c hg
    by_contra hlack
    refine hne (eq_of_shift ((requestOf md5 source host).map components) ?_ ?_)
    · exact List.ne_nil_of_mem (mem_request.mpr ⟨c, hg, hlack⟩)
    · intro r hr
      obtain ⟨c', hg', hlack'⟩ := mem_request.mp hr
      have hw := get?_of_unlinkAll _ (hs.1 r c' hg')
      by_contra hno
      rw [get?_writeAll_ne] at hw
      · exact hlack' hw
      · intro x hx he
        obtain ⟨r', c'', hg'', rfl, hlack''⟩ := mem_toSend.mp hx
        rw [locate_relString (source.names _ (mem_keys_of_get? hg''))] at he
        exact hno ⟨r', mem_request.mpr ⟨c'', hg'', hlack''⟩, he⟩
  · -- so are the paths to delete
    intro hd q hq hp
    obtain ⟨rel, rfl⟩ := hp
    by_contra hlack
    have hextra : ∀ r, host.dest ++ r ∈ host.tree.files.keys → r ∉ source.files.keys →
        r ∈ (deletionsOf md5 source host delete).map components := by
      intro r hk hno
      refine mem_deletions.mpr ⟨hd, ?_, hk, hno⟩
      rintro rfl
      rw [List.append_nil] at hk
      exact host.dest_dir _ hk List.prefix_rfl
    refine hne (eq_of_shift ((deletionsOf md5 source host delete).map components) ?_ ?_)
    · exact List.ne_nil_of_mem (hextra rel hq fun h => hlack ⟨rel, h, rfl⟩)
    · intro r hr
      obtain ⟨-, -, hk, hno⟩ := mem_deletions.mp hr
      by_contra hkept
      have hw : host.dest ++ r ∈ (finalFiles md5 source host delete).keys := by
        unfold finalFiles transferred
        rw [Dict.mem_keys, get?_unlinkAll_ne, ← Dict.mem_keys]
        · exact mem_keys_writeAll _ hk
        · intro x hx he
          obtain ⟨y, hy, hyx⟩ := List.mem_map.mp hx
          cases hyx
          obtain ⟨-, r', -, hk', -, rfl⟩ := mem_toDelete.mp hy
          have hn := fileNames_of_keys host.tree.names hk'
          rw [locate_relString hn] at he
          exact hkept ⟨r', List.mem_map.mpr ⟨_, hy, components_relString hn⟩, he⟩
      obtain ⟨r', hr', he'⟩ := hs.2 hd _ hw (List.prefix_append ..)
      rw [List.append_cancel_left he'] at hno
      exact hno hr'

/-- **What a transfer synchronises.** -/
theorem synced_finalFiles_iff (md5 : Bytes ↪ κ) (source : Tree) (host : Host) (delete : Bool) :
    Synced source.files host.dest delete (finalFiles md5 source host delete) ↔
      (host.cwd = host.dest ∧ Compatible host source) ∨
        Synced source.files host.dest delete host.tree.files := by
  constructor
  · intro hs
    by_cases hcd : host.cwd = host.dest
    · left
      refine ⟨hcd, ?_⟩
      by_contra hc
      exact not_synced_of_conflict hc delete hs
    · exact .inr (synced_displaced hcd hs)
  · rintro (⟨hcd, hc⟩ | hs)
    · exact synced_of_compatible hcd hc delete
    · have hR : requestOf md5 source host = [] := by
        rw [List.eq_nil_iff_forall_not_mem]
        intro x hx
        obtain ⟨rel, c, hg, -, hlack⟩ := mem_toSend.mp hx
        exact hlack (hs.1 rel c hg)
      have hD : deletionsOf md5 source host delete = [] := by
        rw [List.eq_nil_iff_forall_not_mem]
        intro x hx
        obtain ⟨hd, rel, -, hk, hno, -⟩ := mem_toDelete.mp hx
        obtain ⟨r, hr, he⟩ := hs.2 hd _ hk (List.prefix_append ..)
        rw [List.append_cancel_left he] at hno
        exact hno hr
      unfold finalFiles
      rw [hR, hD]
      exact hs

/-! ## Containment -/

/-- The paths that a frame names. -/
def framePaths : Frame κ → List Str
  | .fileStart path => [path]
  | .delete files => files.filterMap id
  | _ => []

omit [DecidableEq κ] in
/-- A frame whose paths lead into `root` changes nothing outside it. -/
theorem receive_outside {r : Receiver} {root q : Path} {f : Frame κ}
    (hf : ∀ x ∈ framePaths f, root <+: locate r.cwd x) (hh : ∀ p, r.handle = some p → root <+: p)
    (hq : ¬ root <+: q) :
    (receive r f).cwd = r.cwd ∧ (receive r f).files.get? q = r.files.get? q ∧
      ∀ p, (receive r f).handle = some p → root <+: p := by
  cases f with
  | manifest | request | malformed | done => exact ⟨rfl, rfl, hh⟩
  | fileStart path =>
    have hp := hf path (List.mem_singleton_self _)
    simp only [receive, handleFileStart]
    split
    · refine ⟨rfl, ?_, fun p h => by cases h; exact hp⟩
      rw [Dict.get?_set_ne]
      rintro rfl
      exact hq hp
    · exact ⟨rfl, rfl, hh⟩
  | fileData payload =>
    simp only [receive, handleFileData]
    split
    · exact ⟨rfl, rfl, hh⟩
    · rename_i p hp
      refine ⟨rfl, ?_, hh⟩
      simp only
      split
      · rw [Dict.get?_set_ne]
        rintro rfl
        exact hq (hh _ hp)
      · rfl
  | fileEnd =>
    simp only [receive, handleFileEnd]
    split
    · exact ⟨rfl, rfl, hh⟩
    · exact ⟨rfl, rfl, nofun⟩
  | delete files =>
    refine ⟨rfl, ?_, hh⟩
    refine get?_unlinkAll_ne _ fun x hx => ?_
    rintro rfl
    exact hq (hf x (List.mem_filterMap.mpr ⟨_, hx, rfl⟩))

omit [DecidableEq κ] in
/-- **Frames whose paths lead into `root` change nothing outside it.** -/
theorem frames_outside {r : Receiver} {root q : Path} (frames : List (Frame κ))
    (hf : ∀ f ∈ frames, ∀ x ∈ framePaths f, root <+: locate r.cwd x)
    (hh : ∀ p, r.handle = some p → root <+: p) (hq : ¬ root <+: q) :
    (frames.foldl receive r).files.get? q = r.files.get? q := by
  induction frames generalizing r with
  | nil => rfl
  | cons f frames ih =>
    obtain ⟨h1, h2, h3⟩ := receive_outside (hf f (List.mem_cons_self ..)) hh hq
    rw [List.foldl_cons, ih (fun g hg => h1 ▸ hf g (List.mem_cons_of_mem _ hg)) h3, h2]

/-- The listener's process when it starts. -/
def Host.receiver (host : Host) : Receiver :=
  ⟨host.cwd, host.dest, host.tree.files, none, 0, 0, false⟩

/-- A name longer than any first name of some paths starts none of them. -/
theorem exists_fresh (ps : List Path) : ∃ n, FileName n ∧ ∀ p ∈ ps, ¬ [n] <+: p := by
  refine ⟨List.replicate ((ps.map fun p => (p.headD []).length).sum + 3) 'a', ?_, ?_⟩
  · constructor
    · constructor
      · constructor
        · simp [List.replicate_succ]
        · simp [List.replicate_succ]
        · simp
      · simp [List.replicate_succ]
    · simp
  · intro p hp hn
    obtain ⟨t, rfl⟩ := hn
    have := List.le_sum_of_mem (List.mem_map_of_mem (f := fun p => (p.headD []).length) hp)
    simp at this

omit [DecidableEq κ] in
/-- **The frames of a peer stay inside `dest_path` only if that is the root**:
a file that starts at another path of the root is written there. -/
theorem contained_iff (host : Host) :
    (∀ (frames : List (Frame κ)) q, ¬ host.dest <+: q →
        (frames.foldl receive host.receiver).files.get? q = host.tree.files.get? q) ↔
      host.dest = [] := by
  constructor
  · intro h
    by_contra hd
    obtain ⟨n, hn, hfresh⟩ := exists_fresh (host.cwd :: host.dest :: host.tree.files.keys)
    simp only [List.mem_cons, forall_eq_or_imp] at hfresh
    obtain ⟨hcwd, hdest, hkeys⟩ := hfresh
    have hpart : ∀ c ∈ [n], IsPart c := by simpa using hn.toIsPart
    have hloc : locate host.cwd (render 1 [n]) = [n] := by
      unfold locate
      rw [isAbs_render _ Nat.one_pos, components_render hpart]
      exact walk_names (by simpa using hn.toIsName)
    have hnul : hasNul (render 1 [n]) = false := by
      have := hn.no_nul
      simp [hasNul, render, List.intercalate_singleton, this]
    have hopen : canOpen host.cwd host.dest host.tree.files [n] = true := by
      refine canOpen_iff.mpr ⟨isDir_eq_false.mpr ⟨hcwd, hdest, ?_⟩, ?_⟩
      · exact fun q hq hp => absurd hp (hkeys q hq)
      · intro q hq hp
        obtain rfl | ⟨t, rfl, ht⟩ := List.prefix_cons_iff.mp hp
        · exact absurd rfl (host.tree.ne_nil _ hq)
        · exact absurd (List.prefix_append [n] t) (hkeys _ hq)
    have hout : ¬ host.dest <+: [n] := by
      intro hp
      obtain he | ⟨t, he, ht⟩ := List.prefix_cons_iff.mp hp
      · exact hd he
      · exact hdest (by rw [he]; exact List.prefix_append [n] t)
    have hw := h [.fileStart (render 1 [n])] [n] hout
    simp only [List.foldl_cons, List.foldl_nil, receive, handleFileStart, Host.receiver, hloc, hnul,
      hopen, Bool.not_false, Bool.and_self, if_true, Dict.get?_set_self] at hw
    exact hkeys _ (mem_keys_of_get? hw.symm) List.prefix_rfl
  · intro hd frames q hq
    rw [hd] at hq
    exact absurd List.nil_prefix hq

end Wormhole.L4.Rsync
