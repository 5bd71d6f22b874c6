import Wormhole.L4App.Ftp

/-!
# Revisiting an FTP directory

`PWD` and `CWD` of `src/wh/cli/ftp.py`. `PWD` gives the path from the root, with a slash in
front; `CWD` takes an absolute path from the root of the file system. The files stay as they
are.

* `revisit_iff`: the path that `PWD` gives leads back to a working directory at or below the
  root if and only if that is the root, or the root is `/` and the working directory begins
  with one slash.
-/
namespace Wormhole.L4.FtpDirectories
open Wormhole.L1 Wormhole.PosixPath Wormhole.L4.Ftp
open Wormhole.L4.ServedPaths (Inside Root startsWith)

variable {φ : Type} (os : Os φ)

/-! ## Working directories -/

/-- The path that `PWD` gives, between its quotes. -/
def pwdPath (p : FTPProtocol φ) : Str :=
  let rel := relpath p.cwd p.rootDir.path
  if rel = ['.'] then ['/'] else '/' :: rel

/-- The reply to a `CWD` that was accepted. -/
def changed : Frame := response 250 "Directory changed successfully"

/-- `CWD` commands that are accepted, one after another. -/
def step (p : FTPProtocol φ) (path : String) : Option (FTPProtocol φ) :=
  if (cmdCwd os p path).sends = [changed] then some (cmdCwd os p path).ftp else none

/-- From a new object whose root is a directory. -/
def lts : LTS (FTPProtocol φ) String :=
  .ofStep (fun p => p.cwd = p.rootDir.path ∧ os.isdir p.files p.rootDir.path = true) (step os)

/-- `CWD` with the path that `PWD` gives is accepted, and changes nothing. -/
def Revisits (p : FTPProtocol φ) : Prop :=
  (cmdCwd os p (String.ofList (pwdPath p))).sends = [changed] ∧
    (cmdCwd os p (String.ofList (pwdPath p))).ftp.cwd = p.cwd

/-- A directory at or below the root. -/
def Below (p : FTPProtocol φ) : Prop :=
  os.isdir p.files p.cwd = true ∧ Inside p.rootDir p.cwd

/-- The root, or any directory where the root is `/`. Two slashes at the beginning of a path
are not one. -/
def AtHome (p : FTPProtocol φ) : Prop :=
  p.cwd = p.rootDir.path ∨ (p.rootDir.path = ['/'] ∧ ¬ ['/', '/'] <+: p.cwd)

/-! ## `CWD` -/

/-- Where `CWD` leads, before the file system is asked. -/
def target (p : FTPProtocol φ) (path : Str) : Option Str :=
  if path = ['/'] then some p.rootDir.path else ServedPaths.Ftp.resolvePath p.rootDir p.cwd path

/-- What `CWD` does, by where it leads. -/
theorem cmdCwd_eq (p : FTPProtocol φ) (path : String) :
    cmdCwd os p path =
      match target p path.toList with
      | some t =>
        if os.isdir p.files t then respond { p with cwd := t } 250 "Directory changed successfully"
        else respond p 550 ("Directory not found: " ++ path)
      | none => ⟨p, [], some "Access denied: path outside root directory"⟩ := by
  have hpath : path = "/" ↔ path.toList = ['/'] := by
    rw [← String.toList_inj]
    rfl
  unfold cmdCwd target withPath resolvePath
  by_cases hroot : path = "/"
  · rw [if_pos hroot, if_pos (hpath.mp hroot)]
  · rw [if_neg hroot, if_neg fun h => hroot (hpath.mpr h)]
    cases ServedPaths.Ftp.resolvePath p.rootDir p.cwd path.toList with
    | none => rfl
    | some t => rfl

theorem response_code_ne {code code' : Nat} (h : beBytes 2 code ≠ beBytes 2 code')
    (message message' : String) : response code message ≠ response code' message' := by
  intro he
  have hpayload := congrArg (fun f => f.payload.take 2) he
  simp only [response] at hpayload
  rw [List.take_left' (length_beBytes 2 code), List.take_left' (length_beBytes 2 code')] at hpayload
  exact h hpayload

theorem accepted_iff {p : FTPProtocol φ} {path : String} :
    (cmdCwd os p path).sends = [changed] ↔
      ∃ t, target p path.toList = some t ∧ os.isdir p.files t = true := by
  rw [cmdCwd_eq]
  cases ht : target p path.toList with
  | none =>
    constructor
    · intro h
      cases h
    · intro ⟨t, h, _⟩
      cases h
  | some t =>
    by_cases hd : os.isdir p.files t = true
    · simp only [if_pos hd]
      exact ⟨fun _ => ⟨t, rfl, hd⟩, fun _ => rfl⟩
    · simp only [if_neg hd]
      constructor
      · intro h
        exact absurd (List.singleton_inj.mp h) (response_code_ne (by decide) _ _)
      · intro ⟨t', ht', hd'⟩
        cases ht'
        exact absurd hd' hd

theorem ftp_accepted {p : FTPProtocol φ} {path : String} {t : Str}
    (ht : target p path.toList = some t) (hd : os.isdir p.files t = true) :
    (cmdCwd os p path).ftp = { p with cwd := t } := by
  rw [cmdCwd_eq, ht]
  simp only [if_pos hd]
  rfl

theorem target_normalized {p : FTPProtocol φ} {path t : Str} (hp : Normalized p.cwd)
    (h : target p path = some t) : Normalized t ∧ startsWith p.rootDir t = true := by
  unfold target at h
  split at h
  · rw [← Option.some.inj h]
    exact ⟨p.rootDir.normalized, List.isPrefixOf_iff_prefix.mpr (List.prefix_refl _)⟩
  · obtain ⟨hn, hs, -⟩ := ServedPaths.Ftp.resolvePath_eq hp h
    exact ⟨hn, hs⟩

/-- What holds of every working directory. -/
structure Kept (p : FTPProtocol φ) : Prop where
  normalized : Normalized p.cwd
  starts : startsWith p.rootDir p.cwd = true
  isdir : os.isdir p.files p.cwd = true
  root : os.isdir p.files p.rootDir.path = true

theorem kept_reachable {p : FTPProtocol φ} (h : (lts os).Reachable p) : Kept os p := by
  have hI : (lts os).Inductive (Kept os) := by
    refine ⟨fun p h => ?_, fun p path q hk hst => ?_⟩
    · obtain ⟨hcwd, hroot⟩ := h
      refine ⟨hcwd ▸ p.rootDir.normalized, ?_, hcwd ▸ hroot, hroot⟩
      rw [hcwd]
      exact List.isPrefixOf_iff_prefix.mpr (List.prefix_refl _)
    · have hst' : step os p path = some q := hst
      unfold step at hst'
      split at hst'
      · rename_i hacc
        obtain ⟨t, ht, hd⟩ := (accepted_iff os).mp hacc
        obtain ⟨hn, hs⟩ := target_normalized hk.normalized ht
        rw [ftp_accepted os ht hd] at hst'
        rw [← Option.some.inj hst']
        exact ⟨hn, hs, hd, hk.root⟩
      · cases hst'
  exact hI.reachable p h

/-! ## `PWD` -/

theorem revisits_iff {p : FTPProtocol φ} (hd : os.isdir p.files p.cwd = true) :
    Revisits os p ↔ target p (pwdPath p) = some p.cwd := by
  unfold Revisits
  rw [accepted_iff, String.toList_ofList]
  have hback : ∀ t, target p (pwdPath p) = some t →
      target p (String.ofList (pwdPath p)).toList = some t := by
    intro t ht
    rw [String.toList_ofList]
    exact ht
  constructor
  · intro ⟨⟨t, ht, hdir⟩, hcwd⟩
    rw [ftp_accepted os (hback t ht) hdir] at hcwd
    rw [ht, ← hcwd]
  · intro ht
    refine ⟨⟨_, ht, hd⟩, ?_⟩
    rw [ftp_accepted os (hback _ ht) hd]

theorem intercalate_ne_dot {ts : List Str} (h : ∀ c ∈ ts, IsPart c) (hne : ts ≠ []) :
    ['/'].intercalate ts ≠ ['.'] := by
  intro he
  have hc := components_render (k := 0) h
  rw [render, he] at hc
  exact hne (hc.symm.trans (by decide))

/-- At the root `PWD` gives `/`; below it, the names from there on. -/
theorem pwdPath_below {p : FTPProtocol φ} (hk : Kept os p) {ts : List Str}
    (h : components p.cwd = components p.rootDir.path ++ ts) :
    pwdPath p = render 1 ts := by
  have hts : ∀ c ∈ ts, IsPart c := fun c hc =>
    (hk.normalized.isName c (h ▸ List.mem_append_right _ hc)).toIsPart
  unfold pwdPath
  rw [relpath_below hk.normalized p.rootDir.normalized h]
  by_cases hnil : ts = []
  · rw [if_pos hnil, if_pos rfl, hnil]
    rfl
  · rw [if_neg hnil, if_neg (intercalate_ne_dot hts hnil)]
    rfl

/-- A path with one slash in front. -/
theorem one_slash_iff {p : Str} (hp : Normalized p) :
    ¬ ['/', '/'] <+: p ↔ p = render 1 (components p) := by
  have hparts : ∀ c ∈ components p, IsPart c := fun c hc => (hp.isName c hc).toIsPart
  have hone : ¬ ['/', '/'] <+: render 1 (components p) := by
    intro hpre
    have hhead := head_intercalate hparts
    rw [render, List.replicate_one, List.singleton_append, List.cons_prefix_cons] at hpre
    obtain ⟨rest, hrest⟩ := hpre.2
    rw [← hrest] at hhead
    exact hhead rfl
  constructor
  · intro hnot
    have hrender := hp.eq_render
    have hpos := initialSlashes_pos hp.abs
    have hle := initialSlashes_le p
    rcases (by omega : initialSlashes p = 1 ∨ initialSlashes p = 2) with hk | hk
    · rwa [hk] at hrender
    · rw [hk] at hrender
      exact absurd ⟨_, hrender.symm⟩ hnot
  · intro hrender
    rwa [hrender]

/-! ## Back again -/

/-- `CWD` with a path of names from the root of the file system. -/
theorem target_render (p : FTPProtocol φ) {ts : List Str} (h : ∀ c ∈ ts, IsName c)
    (hne : ts ≠ []) : target p (render 1 ts) =
      if startsWith p.rootDir (render 1 ts) then some (render 1 ts) else none := by
  have hn := normalized_render h Nat.one_pos (by omega)
  have hslash : render 1 ts ≠ ['/'] := by
    intro he
    have hc := components_render (k := 1) fun c hc => (h c hc).toIsPart
    rw [he] at hc
    exact hne (hc.symm.trans (by decide))
  rw [target, if_neg hslash, ServedPaths.Ftp.resolvePath]
  simp only [if_pos hn.abs, hn.norm]

theorem target_pwdPath_iff {p : FTPProtocol φ} (hk : Kept os p)
    (hin : Inside p.rootDir p.cwd) : target p (pwdPath p) = some p.cwd ↔ AtHome p := by
  obtain ⟨ts, hts⟩ := hin
  have hnames : ∀ c ∈ ts, IsName c := fun c hc =>
    hk.normalized.isName c (hts ▸ List.mem_append_right _ hc)
  have hroot := p.rootDir.normalized
  rw [pwdPath_below os hk hts.symm]
  by_cases hnil : ts = []
  · -- the root itself
    have htarget : target p (render 1 ts) = some p.rootDir.path := by
      rw [hnil]
      rfl
    rw [htarget, Option.some_inj, AtHome]
    constructor
    · intro h
      exact .inl h.symm
    · rintro (h | ⟨h, hone⟩)
      · exact h.symm
      · have hcwd := (one_slash_iff hk.normalized).mp hone
        rw [hnil, List.append_nil, h] at hts
        rw [h, hcwd, ← hts]
        decide
  · rw [target_render p hnames hnil, AtHome]
    constructor
    · intro h
      split at h
      · rename_i hs
        have hcwd := Option.some.inj h
        have hcomps : components p.rootDir.path = [] := by
          rw [← hcwd, components_render fun c hc => (hnames c hc).toIsPart] at hts
          exact List.append_left_eq_self.mp hts
        have hone : ¬ ['/', '/'] <+: p.cwd := (one_slash_iff hk.normalized).mpr (by
          rw [← hts, hcomps, List.nil_append, hcwd])
        refine .inr ⟨?_, hone⟩
        have hpre : ¬ ['/', '/'] <+: p.rootDir.path := fun hd =>
          hone (hd.trans (List.isPrefixOf_iff_prefix.mp hk.starts))
        rw [(one_slash_iff hroot).mp hpre, hcomps]
        rfl
      · cases h
    · rintro (h | ⟨h, hone⟩)
      · rw [h] at hts
        exact absurd (List.append_right_eq_self.mp hts) hnil
      · have hcwd := (one_slash_iff hk.normalized).mp hone
        have hcomps : components p.rootDir.path = [] := by
          rw [h]
          decide
        rw [← hts, hcomps, List.nil_append] at hcwd
        rw [← hcwd, if_pos hk.starts]

/-- **When a directory can be revisited.** After any accepted `CWD` commands, `CWD` with the
path that `PWD` gives is accepted and leaves the working directory as it is, which is a
directory at or below the root, if and only if it is the root, or the root is `/` and the
working directory begins with one slash. -/
theorem revisit_iff {p : FTPProtocol φ} (h : (lts os).Reachable p) :
    Revisits os p ∧ Below os p ↔ AtHome p := by
  have hk := kept_reachable os h
  have hinside : AtHome p → Inside p.rootDir p.cwd := by
    rintro (hcwd | ⟨hroot, -⟩)
    · rw [hcwd]
      exact List.prefix_refl _
    · have hcomps : components p.rootDir.path = [] := by
        rw [hroot]
        decide
      rw [Inside, hcomps]
      exact List.nil_prefix
  constructor
  · intro ⟨hrev, _, hin⟩
    exact (target_pwdPath_iff os hk hin).mp ((revisits_iff os hk.isdir).mp hrev)
  · intro hhome
    have hin := hinside hhome
    exact ⟨(revisits_iff os hk.isdir).mpr ((target_pwdPath_iff os hk hin).mpr hhome),
      hk.isdir, hin⟩

/-! ## Directories on fixed inputs -/

/-- A file system of these directories. -/
def directories (dirs : List Str) : Os Unit where
  isdir := fun _ path => dirs.contains path
  isfile := fun _ _ => false
  listing := fun _ _ => .ok []
  read := fun _ _ => ([], none)
  write := fun _ _ _ => ((), none)
  makedirs := fun _ _ => .made ()
  rmdir := fun _ _ => ((), none)
  remove := fun _ _ => ((), none)
  getsize := fun _ _ => .ok 0
  upperNonAscii := fun c => [c]

/-- A server that was just set up. -/
def server (root : Root) (cwd : Str) : FTPProtocol Unit where
  isServer := true
  rootDir := root
  cwd := cwd
  files := ()
  future := .settled
  dataBuffer := []
  receivingData := false
  storTarget := none
  tasks := []
  done := false
  out := []
  answered := []
  storCommand := 0

def slashRoot : Root := ⟨"/".toList, ⟨by decide, by decide⟩⟩

def srvRoot : Root := ⟨"/srv".toList, ⟨by decide, by decide⟩⟩

def srv : Os Unit := directories ["/".toList, "/srv".toList, "/srv/docs".toList]

/-- With the root `/`, `CWD srv/docs` and back. -/
theorem docs_revisited :
    Revisits srv (server slashRoot "/srv/docs".toList) ∧
      Below srv (server slashRoot "/srv/docs".toList) :=
  (revisit_iff srv ⟨server slashRoot "/".toList, ["srv/docs"], ⟨rfl, by decide⟩,
    LTS.run_of_exec rfl⟩).mpr (.inr (by decide))

/-- **Not from a directory below the root**: `PWD` gives `/docs`, and `CWD` looks for it
outside. -/
theorem docs_not_revisited : ¬ ∀ (os : Os Unit) (p : FTPProtocol Unit),
    (lts os).Reachable p → Revisits os p ∧ Below os p := by
  intro h
  have hreach : (lts srv).Reachable (server srvRoot "/srv/docs".toList) :=
    ⟨server srvRoot "/srv".toList, ["docs"], ⟨rfl, by decide⟩, LTS.run_of_exec rfl⟩
  obtain ⟨⟨hacc, -⟩, -⟩ := h srv _ hreach
  revert hacc
  decide +kernel

end Wormhole.L4.FtpDirectories
