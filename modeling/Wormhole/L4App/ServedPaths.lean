import Wormhole.Core.LTS
import Wormhole.Core.PosixPath

/-!
# Which paths are served

The three servers that turn a peer's path string into a path below their root:
`MountProtocol` (`src/wh/cli/mount.py`), `FTPProtocol` (`src/wh/cli/ftp.py`) and
`HTTPFileServer` (`src/wh/http/server.py`). Paths are read lexically, so a path
names the directory its components lead to. What the file system says
(`is_dir`, `is_file`, `exists`) is arbitrary.

All three compare strings: the path they have resolved must start with the
root's. `served_inside_iff`: a path that passes is the root or below it if and
only if the request does not lead through a sibling of the root whose name
extends the root's; `sibling_served`: one that does is served.
-/
namespace Wormhole.L4.ServedPaths
open Wormhole.PosixPath

/-- The directory a server serves. -/
structure Root where
  path : Str
  normalized : Normalized path

/-- The root itself, or below it component by component. -/
def Inside (root : Root) (r : Str) : Prop := components root.path <+: components r

/-- The components lead through a directory beside the root whose name extends
the name of the root. -/
def Escapes (root : Root) (cs : List Str) : Prop := Sibling (components root.path) cs

/-- The check that all three servers make. -/
def startsWith (root : Root) (r : Str) : Bool := root.path.isPrefixOf r

/-- **What the check lets through** of a normalised path. -/
theorem inside_iff {root : Root} {r : Str} (hr : Normalized r) (h : startsWith root r = true) :
    Inside root r ↔ ¬ Escapes root (components r) := by
  have hp : root.path <+: r := List.isPrefixOf_iff_prefix.mp h
  rw [root.normalized.eq_render, hr.eq_render] at hp
  exact prefix_iff_not_sibling (fun c hc => (root.normalized.isName c hc).toIsPart)
    (fun c hc => (hr.isName c hc).toIsPart) hp

/-! ## `MountProtocol` -/

namespace Mount

/-- `none` is `PermissionError`.
mirrors src/wh/cli/mount.py:110-123 -/
def resolvePath (root : Root) (path : Str) : Option Str :=
  let path := lstrip path
  if path = [] then some root.path
  else
    let resolved := normpath (join root.path path)
    if startsWith root resolved then some resolved else none

/-- Where a request leads. -/
def target (root : Root) (path : Str) : List Str :=
  walk (components root.path) (components path)

theorem resolvePath_eq {root : Root} {path r : Str} (h : resolvePath root path = some r) :
    Normalized r ∧ startsWith root r = true ∧ components r = target root path := by
  simp only [resolvePath] at h
  split at h
  · rename_i hp
    cases h
    refine ⟨root.normalized, by simp [startsWith, List.isPrefixOf_iff_prefix], ?_⟩
    rw [target, ← components_lstrip path, hp, components_nil]
    rfl
  · split at h
    · rename_i hs
      cases h
      have ha := isAbs_join (lstrip path) root.normalized.abs
      refine ⟨normalized_normpath ha, hs, ?_⟩
      rw [components_normpath ha, components_join (isAbs_lstrip path), walk_append,
        walk_components root.normalized, components_lstrip]
      rfl
    · cases h

end Mount

/-! ## `FTPProtocol` -/

namespace Ftp

/-- mirrors src/wh/cli/ftp.py:158-169 -/
def resolvePath (root : Root) (cwd path : Str) : Option Str :=
  let resolved := if isAbs path then normpath path else normpath (join cwd path)
  if startsWith root resolved then some resolved else none

/-- The working directory after `CWD`; `isDir` is what `os.path.isdir` says.
mirrors src/wh/cli/ftp.py:180-192 -/
def cmdCwd (root : Root) (cwd path : Str) (isDir : Bool) : Str :=
  match if path = ['/'] then some root.path else resolvePath root cwd path with
  | none => cwd
  | some newPath => if isDir then newPath else cwd

/-- The commands that change `cwd`: `CWD` with its argument. -/
def lts (root : Root) : LTS Str (Str × Bool) :=
  .ofStep (· = root.path) fun cwd l => some (cmdCwd root cwd l.1 l.2)

/-- Where a request leads. -/
def target (cwd path : Str) : List Str :=
  walk (if isAbs path then [] else components cwd) (components path)

theorem resolvePath_eq {root : Root} {cwd path r : Str} (hc : Normalized cwd)
    (h : resolvePath root cwd path = some r) :
    Normalized r ∧ startsWith root r = true ∧ components r = target cwd path := by
  unfold resolvePath at h
  unfold target
  cases ha : isAbs path with
  | true =>
    simp only [ha, if_true] at h ⊢
    split at h
    · rename_i hs
      cases h
      exact ⟨normalized_normpath ha, hs, components_normpath ha⟩
    · cases h
  | false =>
    simp only [ha, Bool.false_eq_true, if_false] at h ⊢
    split at h
    · rename_i hs
      cases h
      have hj := isAbs_join path hc.abs
      refine ⟨normalized_normpath hj, hs, ?_⟩
      rw [components_normpath hj, components_join ha, walk_append, walk_components hc]
      rfl
    · cases h

/-- Every reachable `cwd` is normalised. -/
theorem normalized_cwd {root : Root} {cwd : Str} (h : (lts root).Reachable cwd) :
    Normalized cwd := by
  have hI : (lts root).Inductive Normalized := by
    refine ⟨fun s hs => hs ▸ root.normalized, ?_⟩
    intro s l t hs hst
    have ht : some (cmdCwd root s l.1 l.2) = some t := hst
    cases ht
    unfold cmdCwd
    split
    · exact hs
    · rename_i p hp
      split
      · split at hp
        · cases hp; exact root.normalized
        · exact (resolvePath_eq hs hp).1
      · exact hs
  exact hI.reachable cwd h

end Ftp

/-! ## `HTTPFileServer` -/

namespace Http

/-- `Path.resolve()` of an absolute path without symbolic links. -/
def resolve (p : Str) : Str := render 1 (walk [] (components p))

/-- `str(dir / path)` for a relative path: `pathlib` drops empty parts and `.`. -/
def slash (dir path : Str) : Str := render 1 (components dir ++ components path)

/-- `p.split('?')[0]` -/
def withoutQuery (p : Str) : Str := p.takeWhile (· ≠ '?')

/-- What the file system says of a path. -/
structure FileSystem where
  isFile : Str → Bool
  fileExists : Str → Bool

/-- An answer of `_handle_http_request`: an error page, or the file read. -/
inductive Answer
  | error (status : Nat) (reason : String) (message : String)
  | file (path : Str)
  deriving DecidableEq, Repr

/-- The request's path less its query and its leading slashes. -/
def cleanPath (path : Str) : Str :=
  let clean := lstrip (withoutQuery path)
  if clean = [] then "index.html".toList else clean

/-- The guesses for a path that is not a file: `.html`, then `index.html`.
mirrors src/wh/http/server.py:113-126 -/
def guess (fs : FileSystem) (serveDir clean : Str) : Str :=
  let filePath := slash serveDir clean
  if fs.isFile filePath then filePath
  else
    let htmlPath := slash serveDir (clean ++ ".html".toList)
    if fs.isFile htmlPath then htmlPath
    else
      let indexPath := slash filePath "index.html".toList
      if fs.isFile indexPath then indexPath else filePath

/-- mirrors src/wh/http/server.py:102-144 -/
def handleHttpRequest (root : Root) (fs : FileSystem) (path : Str) : Answer :=
  let filePath := resolve (guess fs root.path (cleanPath path))
  if !startsWith root filePath then .error 403 "Forbidden" "Path traversal not allowed"
  else if !fs.fileExists filePath then
    .error 404 "Not Found" ("File not found: " ++ String.ofList path)
  else if !fs.isFile filePath then .error 403 "Forbidden" "Not a file"
  else .file filePath

/-- Where a request leads. -/
def target (root : Root) (fs : FileSystem) (path : Str) : List Str :=
  walk [] (components (guess fs root.path (cleanPath path)))

theorem normalized_resolve (p : Str) : Normalized (resolve p) :=
  normalized_render (isName_walk_components p) Nat.one_pos (by omega)

theorem handleHttpRequest_file {root : Root} {fs : FileSystem} {path f : Str}
    (h : handleHttpRequest root fs path = .file f) :
    Normalized f ∧ startsWith root f = true ∧ components f = target root fs path := by
  simp only [handleHttpRequest] at h
  split at h
  · cases h
  · rename_i hs
    split at h
    · cases h
    · split at h
      · cases h
      · cases h
        refine ⟨normalized_resolve _, by simpa using hs, ?_⟩
        exact components_render fun c hc => (isName_walk_components _ c hc).toIsPart

end Http

/-! ## What the three serve -/

/-- **A served path is inside the root unless it goes through a sibling.** For
every root, every request path and, for FTP, every `cwd` that commands lead
to: what `_resolve_path` returns, and the file that `_handle_http_request`
reads, is the root or below it exactly when the request does not lead through
a directory beside the root whose name extends the root's. -/
theorem served_inside_iff (root : Root) :
    (∀ path r, Mount.resolvePath root path = some r →
      (Inside root r ↔ ¬ Escapes root (Mount.target root path))) ∧
    (∀ cwd, (Ftp.lts root).Reachable cwd → ∀ path r, Ftp.resolvePath root cwd path = some r →
      (Inside root r ↔ ¬ Escapes root (Ftp.target cwd path))) ∧
    ∀ fs path f, Http.handleHttpRequest root fs path = .file f →
      (Inside root f ↔ ¬ Escapes root (Http.target root fs path)) := by
  refine ⟨fun path r h => ?_, fun cwd hcwd path r h => ?_, fun fs path f h => ?_⟩
  · obtain ⟨hn, hs, hc⟩ := Mount.resolvePath_eq h
    rw [inside_iff hn hs, hc]
  · obtain ⟨hn, hs, hc⟩ := Ftp.resolvePath_eq (Ftp.normalized_cwd hcwd) h
    rw [inside_iff hn hs, hc]
  · obtain ⟨hn, hs, hc⟩ := Http.handleHttpRequest_file h
    rw [inside_iff hn hs, hc]

/-! ## Requests on fixed inputs -/

def share : Root := ⟨"/srv/share".toList, ⟨by decide, by decide⟩⟩

/-- A file system with one file. -/
def oneFile (f : String) : Http.FileSystem :=
  ⟨fun p => Http.resolve p = f.toList, fun p => Http.resolve p = f.toList⟩

/-- Three requests that stay inside. -/
theorem share_served :
    (Inside share "/srv/share/a".toList ↔
      ¬ Escapes share (Mount.target share "x/../a".toList)) ∧
    (Inside share "/srv/share/a".toList ↔
      ¬ Escapes share (Ftp.target share.path "/srv/./share/a".toList)) ∧
    (Inside share "/srv/share/a.html".toList ↔
      ¬ Escapes share (Http.target share (oneFile "/srv/share/a.html") "/a?q=1".toList)) :=
  ⟨(served_inside_iff share).1 _ _ (by decide),
    (served_inside_iff share).2.1 _ (.init rfl) _ _ (by decide),
    (served_inside_iff share).2.2 _ _ _ (by decide)⟩

/-- **A sibling is served.** For the root `/srv/share` the mount and the FTP
server return, and the HTTP server reads, paths that are not below it. -/
theorem sibling_served :
    (Mount.resolvePath share "../share2/key".toList = some "/srv/share2/key".toList ∧
      ¬ Inside share "/srv/share2/key".toList) ∧
    (Ftp.resolvePath share share.path "/srv/share2/key".toList = some "/srv/share2/key".toList ∧
      ¬ Inside share "/srv/share2/key".toList) ∧
    (Http.handleHttpRequest share (oneFile "/srv/share.html") "/../share".toList =
        .file "/srv/share.html".toList ∧
      ¬ Inside share "/srv/share.html".toList) := by
  unfold Inside
  decide

end Wormhole.L4.ServedPaths
