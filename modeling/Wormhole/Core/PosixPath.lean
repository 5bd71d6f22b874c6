import Mathlib.Data.List.Basic

/-!
# POSIX path strings, read lexically

A path is a list of characters. `components` are its parts between slashes,
less the empty ones and `.`. `walk` follows parts from a directory given by
its components, `..` going back by one and staying at the root: this is what a
path means when no part of it is a symbolic link. `join` and `normpath` are
`os.path.join` and `os.path.normpath`.

`normpath_of_abs`: normalising an absolute path is walking its components from
the root. `prefix_iff_not_sibling`: between normalised absolute paths, a string
prefix is a component prefix except when the longer path goes through a
sibling whose name extends the shorter path's last name.
-/
namespace Wormhole.PosixPath

abbrev Str := List Char

/-- Neither empty nor `.`. -/
def counts (c : Str) : Bool := c ≠ [] && c ≠ ['.']

def components (p : Str) : List Str := (p.splitOn '/').filter counts

/-- `os.path.isabs`. -/
def isAbs (p : Str) : Bool := p.head? = some '/'

/-- `p.lstrip("/")`. -/
def lstrip (p : Str) : Str := p.dropWhile (· = '/')

/-- Following parts from a directory. -/
def walk : List Str → List Str → List Str
  | dir, [] => dir
  | dir, c :: cs => if c = ['.', '.'] then walk dir.dropLast cs else walk (dir ++ [c]) cs

/-- `os.path.join(a, b)`. -/
def join (a b : Str) : Str :=
  if isAbs b then b else if a = [] ∨ a.getLast? = some '/' then a ++ b else a ++ '/' :: b

/-- Two initial slashes are kept, three or more are one. -/
def initialSlashes (p : Str) : Nat :=
  if isAbs p then if ['/', '/'].isPrefixOf p && !(['/', '/', '/'].isPrefixOf p) then 2 else 1 else 0

/-- The loop of `os.path.normpath`: a relative path keeps a leading `..`. -/
def normComps (abs : Bool) : List Str → List Str → List Str
  | new, [] => new
  | new, c :: cs =>
    if c ≠ ['.', '.'] ∨ (abs = false ∧ new = []) ∨ new.getLast? = some ['.', '.'] then
      normComps abs (new ++ [c]) cs
    else normComps abs new.dropLast cs

/-- Initial slashes and components. -/
def render (k : Nat) (cs : List Str) : Str := List.replicate k '/' ++ ['/'].intercalate cs

/-- `os.path.normpath`. -/
def normpath (p : Str) : Str :=
  let path := render (initialSlashes p) (normComps (isAbs p) [] (components p))
  if path = [] then ['.'] else path

/-- How many components two paths share from the start. -/
def sharedPrefix : List Str → List Str → Nat
  | c :: cs, d :: ds => if c = d then sharedPrefix cs ds + 1 else 0
  | _, _ => 0

/-- `os.path.relpath` of absolute paths. -/
def relpath (p start : Str) : Str :=
  let ps := components (normpath p)
  let ss := components (normpath start)
  let n := sharedPrefix ss ps
  let rel := List.replicate (ss.length - n) ['.', '.'] ++ ps.drop n
  if rel = [] then ['.'] else ['/'].intercalate rel

/-! ## Components -/

/-- A part between slashes that counts. -/
structure IsPart (c : Str) : Prop where
  ne_nil : c ≠ []
  ne_dot : c ≠ ['.']
  no_slash : '/' ∉ c

/-- Parts that are not `..`. -/
structure IsName (c : Str) : Prop extends IsPart c where
  ne_dotdot : c ≠ ['.', '.']

theorem counts_iff {c : Str} : counts c = true ↔ c ≠ [] ∧ c ≠ ['.'] := by
  simp [counts]

theorem not_mem_of_splitOn {p c : Str} (h : c ∈ p.splitOn '/') : '/' ∉ c := by
  induction p generalizing c with
  | nil => simp at h; simp [h]
  | cons x p ih =>
    rw [List.splitOn_cons_eq_if_modifyHead] at h
    split at h
    · obtain rfl | h := List.mem_cons.mp h
      · simp
      · exact ih h
    · rename_i hx
      obtain ⟨q, qs, hq⟩ := List.exists_cons_of_ne_nil (List.splitOn_ne_nil '/' p)
      rw [hq] at h ih
      obtain rfl | h := List.mem_cons.mp h
      · have := ih (List.mem_cons_self ..)
        simp only [List.mem_cons, not_or]
        exact ⟨fun hc => hx (by simp [← hc]), this⟩
      · exact ih (List.mem_cons_of_mem _ h)

theorem isPart_of_components {p c : Str} (h : c ∈ components p) : IsPart c := by
  obtain ⟨h1, h2⟩ := List.mem_filter.mp h
  obtain ⟨h3, h4⟩ := counts_iff.mp h2
  exact ⟨h3, h4, not_mem_of_splitOn h1⟩

@[simp] theorem components_nil : components [] = [] := by
  simp [components, counts]

theorem components_slash (a b : Str) :
    components (a ++ '/' :: b) = components a ++ components b := by
  unfold components
  rw [List.splitOn_append_cons_self, List.filter_append]

theorem components_replicate (k : Nat) (p : Str) :
    components (List.replicate k '/' ++ p) = components p := by
  induction k with
  | zero => rfl
  | succ k ih =>
    have := components_slash [] (List.replicate k '/' ++ p)
    rwa [components_nil, List.nil_append, List.nil_append, ih] at this

theorem components_render {k : Nat} {cs : List Str} (h : ∀ c ∈ cs, IsPart c) :
    components (render k cs) = cs := by
  unfold render
  rw [components_replicate]
  by_cases hne : cs = []
  · subst hne; exact components_nil
  · unfold components
    rw [List.splitOn_intercalate '/' (fun c hc => (h c hc).no_slash) hne, List.filter_eq_self]
    intro c hc
    exact counts_iff.mpr ⟨(h c hc).ne_nil, (h c hc).ne_dot⟩

theorem components_join {a b : Str} (h : isAbs b = false) :
    components (join a b) = components a ++ components b := by
  unfold join
  rw [h]
  simp only [Bool.false_eq_true, if_false]
  split
  · rename_i ha
    obtain rfl | ha := ha
    · simp
    · obtain ⟨a', rfl⟩ := List.getLast?_eq_some_iff.mp ha
      have h0 := components_slash a' []
      rw [components_nil, List.append_nil] at h0
      rw [List.append_assoc, List.singleton_append, components_slash, h0]
  · exact components_slash a b

theorem isAbs_join {a : Str} (b : Str) (h : isAbs a = true) : isAbs (join a b) = true := by
  unfold join
  split
  · assumption
  · cases a with
    | nil => cases h
    | cons x a => split <;> exact h

theorem isAbs_lstrip (p : Str) : isAbs (lstrip p) = false := by
  unfold lstrip
  induction p with
  | nil => rfl
  | cons x p ih =>
    rw [List.dropWhile_cons]
    split
    · exact ih
    · rename_i hx
      simpa [isAbs] using hx

theorem components_lstrip (p : Str) : components (lstrip p) = components p := by
  unfold lstrip
  induction p with
  | nil => rfl
  | cons x p ih =>
    rw [List.dropWhile_cons]
    split
    · rename_i hx
      rw [decide_eq_true_eq] at hx
      subst hx
      rw [ih]
      have := components_slash [] p
      rwa [components_nil, List.nil_append, List.nil_append, eq_comm] at this
    · rfl

/-! ## Walking -/

theorem walk_append (dir cs ds : List Str) : walk dir (cs ++ ds) = walk (walk dir cs) ds := by
  induction cs generalizing dir with
  | nil => rfl
  | cons c cs ih =>
    simp only [List.cons_append, walk]
    split
    · exact ih _
    · exact ih _

theorem walk_names {dir cs : List Str} (h : ∀ c ∈ cs, IsName c) : walk dir cs = dir ++ cs := by
  induction cs generalizing dir with
  | nil => simp [walk]
  | cons c cs ih =>
    rw [walk, if_neg (h c (List.mem_cons_self ..)).ne_dotdot,
      ih fun d hd => h d (List.mem_cons_of_mem _ hd), List.append_assoc, List.singleton_append]

theorem isName_walk {dir cs : List Str} (hd : ∀ c ∈ dir, IsName c) (hc : ∀ c ∈ cs, IsPart c) :
    ∀ c ∈ walk dir cs, IsName c := by
  induction cs generalizing dir with
  | nil => exact hd
  | cons c cs ih =>
    have hcs : ∀ d ∈ cs, IsPart d := fun d hd => hc d (List.mem_cons_of_mem _ hd)
    rw [walk]
    split
    · exact ih (fun d h => hd d ((List.dropLast_prefix dir).subset h)) hcs
    · rename_i hne
      refine ih (fun d h => ?_) hcs
      obtain h | h := List.mem_append.mp h
      · exact hd d h
      · obtain rfl := List.mem_singleton.mp h
        exact { hc d (List.mem_cons_self ..) with ne_dotdot := hne }

/-- On absolute paths the loop of `normpath` walks. -/
theorem normComps_abs {new cs : List Str} (h : ['.', '.'] ∉ new) :
    normComps true new cs = walk new cs := by
  induction cs generalizing new with
  | nil => rfl
  | cons c cs ih =>
    have hl : new.getLast? ≠ some ['.', '.'] := fun hl => h (List.mem_of_getLast? hl)
    rw [normComps, walk]
    by_cases hc : c = ['.', '.']
    · simp only [hc, hl, ne_eq, not_true_eq_false, Bool.true_eq_false, false_and, or_self,
        if_false, if_true]
      exact ih fun hm => h ((List.dropLast_prefix new).subset hm)
    · simp only [hc, ne_eq, not_false_eq_true, true_or, if_true, if_false]
      refine ih fun hm => ?_
      obtain hm | hm := List.mem_append.mp hm
      · exact h hm
      · exact hc (List.mem_singleton.mp hm).symm

theorem initialSlashes_pos {p : Str} (h : isAbs p = true) : 0 < initialSlashes p := by
  unfold initialSlashes
  rw [if_pos h]
  split <;> omega

/-- **Normalising is walking.** -/
theorem normpath_of_abs {p : Str} (h : isAbs p = true) :
    normpath p = render (initialSlashes p) (walk [] (components p)) := by
  have hk := initialSlashes_pos h
  unfold normpath
  simp only
  rw [h, normComps_abs (by simp), if_neg]
  unfold render
  cases hs : initialSlashes p with
  | zero => omega
  | succ k => simp [List.replicate_succ]

/-! ## Normalised absolute paths -/

/-- What `os.path.abspath` returns. -/
structure Normalized (p : Str) : Prop where
  abs : isAbs p = true
  norm : normpath p = p

theorem isName_walk_components (p : Str) : ∀ c ∈ walk [] (components p), IsName c :=
  isName_walk (by simp) fun _ h => isPart_of_components h

theorem components_normpath {p : Str} (h : isAbs p = true) :
    components (normpath p) = walk [] (components p) := by
  rw [normpath_of_abs h, components_render fun c hc => (isName_walk_components p c hc).toIsPart]

theorem Normalized.isName {p : Str} (h : Normalized p) : ∀ c ∈ components p, IsName c := by
  rw [← h.norm, components_normpath h.abs]
  exact isName_walk_components p

theorem Normalized.eq_render {p : Str} (h : Normalized p) :
    p = render (initialSlashes p) (components p) := by
  have hc := components_normpath h.abs
  rw [h.norm] at hc
  have hn := normpath_of_abs h.abs
  rwa [h.norm, ← hc] at hn

theorem walk_components {p : Str} (h : Normalized p) (dir : List Str) :
    walk dir (components p) = dir ++ components p := walk_names h.isName

theorem isAbs_render {k : Nat} (cs : List Str) (h : 0 < k) : isAbs (render k cs) = true := by
  obtain ⟨k, rfl⟩ := Nat.exists_eq_succ_of_ne_zero (by omega : k ≠ 0)
  rfl

theorem initialSlashes_le (p : Str) : initialSlashes p ≤ 2 := by
  unfold initialSlashes
  split
  · split <;> omega
  · omega

theorem head_intercalate {cs : List Str} (h : ∀ c ∈ cs, IsPart c) :
    (['/'].intercalate cs).head? ≠ some '/' := by
  cases cs with
  | nil => simp [List.intercalate]
  | cons c cs =>
    have hc := h c (List.mem_cons_self ..)
    obtain ⟨x, c', rfl⟩ := List.exists_cons_of_ne_nil hc.ne_nil
    have hx : x ≠ '/' := fun hx => hc.no_slash (by simp [hx])
    cases cs with
    | nil => simpa [List.intercalate_singleton] using hx
    | cons d ds => simpa [List.intercalate_cons_cons] using hx

theorem initialSlashes_render {k : Nat} {cs : List Str} (h : ∀ c ∈ cs, IsPart c) (hk : 0 < k)
    (hk2 : k ≤ 2) : initialSlashes (render k cs) = k := by
  have hh := head_intercalate h
  unfold initialSlashes
  rw [if_pos (isAbs_render cs hk)]
  unfold render
  cases hi : ['/'].intercalate cs with
  | nil =>
    obtain rfl | rfl : k = 1 ∨ k = 2 := by omega
    · rfl
    · rfl
  | cons x s =>
    rw [hi] at hh
    have hx : ('/' == x) = false := by
      rw [beq_eq_false_iff_ne]
      rintro rfl
      exact hh rfl
    obtain rfl | rfl : k = 1 ∨ k = 2 := by omega
    · simp [List.isPrefixOf, hx]
    · simp [List.isPrefixOf, List.replicate_succ, hx]

theorem normalized_render {k : Nat} {cs : List Str} (h : ∀ c ∈ cs, IsName c) (hk : 0 < k)
    (hk2 : k ≤ 2) : Normalized (render k cs) := by
  have hp : ∀ c ∈ cs, IsPart c := fun c hc => (h c hc).toIsPart
  have ha := isAbs_render cs hk
  refine ⟨ha, ?_⟩
  rw [normpath_of_abs ha, components_render hp, walk_names h, List.nil_append,
    initialSlashes_render hp hk hk2]

/-- Normalising an absolute path normalises it. -/
theorem normalized_normpath {p : Str} (h : isAbs p = true) : Normalized (normpath p) := by
  rw [normpath_of_abs h]
  exact normalized_render (isName_walk_components p) (initialSlashes_pos h) (initialSlashes_le p)

/-! ## Relative paths -/

theorem sharedPrefix_append (ss ts : List Str) : sharedPrefix ss (ss ++ ts) = ss.length := by
  induction ss with
  | nil => rw [List.nil_append, sharedPrefix] <;> simp
  | cons s ss ih => rw [List.cons_append, sharedPrefix, if_pos rfl, ih, List.length_cons]

/-- The path down to a directory from one that it is below. -/
theorem relpath_below {p start : Str} (hp : Normalized p) (hs : Normalized start)
    {ts : List Str} (h : components p = components start ++ ts) :
    relpath p start = if ts = [] then ['.'] else ['/'].intercalate ts := by
  unfold relpath
  rw [hp.norm, hs.norm, h]
  simp only
  rw [sharedPrefix_append, Nat.sub_self, List.replicate_zero, List.nil_append, List.drop_left]

/-! ## String prefixes and component prefixes -/

theorem prefix_of_slash {a b x y : Str} (ha : '/' ∉ a) (hb : '/' ∉ b)
    (h : (a ++ '/' :: x) <+: (b ++ '/' :: y)) : a = b ∧ x <+: y := by
  induction a generalizing b with
  | nil =>
    cases b with
    | nil => exact ⟨rfl, by simpa using h⟩
    | cons c b =>
      simp only [List.nil_append, List.cons_append, List.cons_prefix_cons] at h
      exact absurd (h.1 ▸ List.mem_cons_self ..) hb
  | cons c a ih =>
    cases b with
    | nil =>
      simp only [List.nil_append, List.cons_append, List.cons_prefix_cons] at h
      exact absurd (h.1 ▸ List.mem_cons_self ..) ha
    | cons d b =>
      simp only [List.cons_append, List.cons_prefix_cons] at h
      simp only [List.mem_cons, not_or] at ha hb
      obtain ⟨rfl, hx⟩ := ih ha.2 hb.2 h.2
      exact ⟨by rw [h.1], hx⟩

theorem prefix_of_no_slash {a b y : Str} (ha : '/' ∉ a) (h : a <+: (b ++ '/' :: y)) : a <+: b := by
  induction a generalizing b with
  | nil => exact List.nil_prefix
  | cons c a ih =>
    simp only [List.mem_cons, not_or] at ha
    cases b with
    | nil =>
      simp only [List.nil_append, List.cons_prefix_cons] at h
      exact absurd h.1.symm ha.1
    | cons d b =>
      simp only [List.cons_append, List.cons_prefix_cons] at h
      exact List.cons_prefix_cons.mpr ⟨h.1, ih ha.2 h.2⟩

/-- `ss` agrees with `rs` but for its last name, which it extends, and may go on. -/
def Extends (rs ss : List Str) (ext : Str) : Prop :=
  ∃ parent name rest, rs = parent ++ [name] ∧ ss = parent ++ (name ++ ext) :: rest

theorem extends_of_intercalate {rs ss : List Str} (hne : rs ≠ []) (hr : ∀ c ∈ rs, IsPart c)
    (hs : ∀ c ∈ ss, IsPart c) (h : ['/'].intercalate rs <+: ['/'].intercalate ss) :
    ∃ ext, Extends rs ss ext := by
  induction rs generalizing ss with
  | nil => exact absurd rfl hne
  | cons a rs ih =>
    have ha := hr a (List.mem_cons_self ..)
    cases ss with
    | nil =>
      have he := List.prefix_nil.mp h
      cases rs with
      | nil => rw [List.intercalate_singleton] at he; exact absurd he ha.ne_nil
      | cons a' rs => rw [List.intercalate_cons_cons] at he; simp at he
    | cons b ss =>
      have hb := hs b (List.mem_cons_self ..)
      cases rs with
      | nil =>
        rw [List.intercalate_singleton] at h
        have hab : a <+: b := by
          cases ss with
          | nil => rwa [List.intercalate_singleton] at h
          | cons b' ss =>
            rw [List.intercalate_cons_cons] at h
            exact prefix_of_no_slash ha.no_slash (by simpa using h)
        obtain ⟨ext, rfl⟩ := hab
        exact ⟨ext, [], a, ss, rfl, rfl⟩
      | cons a' rs =>
        rw [List.intercalate_cons_cons] at h
        cases ss with
        | nil =>
          rw [List.intercalate_singleton] at h
          exact absurd (h.subset (by simp)) hb.no_slash
        | cons b' ss =>
          rw [List.intercalate_cons_cons] at h
          obtain ⟨rfl, hx⟩ := prefix_of_slash ha.no_slash hb.no_slash (by simpa using h)
          obtain ⟨ext, parent, name, rest, h1, h2⟩ := ih (by simp)
            (fun c hc => hr c (List.mem_cons_of_mem _ hc))
            (fun c hc => hs c (List.mem_cons_of_mem _ hc)) hx
          exact ⟨ext, a :: parent, name, rest, by rw [h1]; rfl, by rw [h2]; rfl⟩

/-- Paths with different numbers of initial slashes are no prefixes of one another. -/
theorem prefix_render {k j : Nat} {rs ss : List Str} (hr : ∀ c ∈ rs, IsPart c)
    (hs : ∀ c ∈ ss, IsPart c) (h : render k rs <+: render j ss) :
    ['/'].intercalate rs <+: ['/'].intercalate ss := by
  unfold render at h
  induction k generalizing j with
  | zero =>
    cases j with
    | zero => simpa using h
    | succ j =>
      have hh := head_intercalate hr
      simp only [List.replicate_zero, List.nil_append, List.replicate_succ, List.cons_append] at h
      cases hi : ['/'].intercalate rs with
      | nil => simp
      | cons x s =>
        rw [hi] at h hh
        rw [List.cons_prefix_cons] at h
        simp [h.1] at hh
  | succ k ih =>
    cases j with
    | zero =>
      have hh := head_intercalate hs
      simp only [List.replicate_zero, List.nil_append, List.replicate_succ, List.cons_append] at h
      cases hi : ['/'].intercalate ss with
      | nil => rw [hi] at h; simp at h
      | cons x s =>
        rw [hi] at h hh
        rw [List.cons_prefix_cons] at h
        simp [← h.1] at hh
    | succ j =>
      simp only [List.replicate_succ, List.cons_append, List.cons_prefix_cons, true_and] at h
      exact ih h

/-- `ss` goes through a sibling of `rs` whose name extends its last name. -/
def Sibling (rs ss : List Str) : Prop := ∃ ext, ext ≠ [] ∧ Extends rs ss ext

theorem not_prefix_of_sibling {rs ss : List Str} (h : Sibling rs ss) : ¬ rs <+: ss := by
  obtain ⟨ext, hne, parent, name, rest, rfl, rfl⟩ := h
  intro hp
  rw [List.prefix_append_right_inj, List.cons_prefix_cons] at hp
  exact hne (List.self_eq_append_right.mp hp.1)

/-- **String prefixes.** A path that the string of a normalised root is a
prefix of stays below the root unless it goes through such a sibling. -/
theorem prefix_iff_not_sibling {k j : Nat} {rs ss : List Str} (hr : ∀ c ∈ rs, IsPart c)
    (hs : ∀ c ∈ ss, IsPart c) (h : render k rs <+: render j ss) :
    rs <+: ss ↔ ¬ Sibling rs ss := by
  refine ⟨fun hp hsib => not_prefix_of_sibling hsib hp, fun hn => ?_⟩
  by_cases hne : rs = []
  · subst hne; exact List.nil_prefix
  · obtain ⟨ext, he⟩ := extends_of_intercalate hne hr hs (prefix_render hr hs h)
    by_cases hext : ext = []
    · obtain ⟨parent, name, rest, rfl, rfl⟩ := he
      subst hext
      simp
    · exact absurd ⟨ext, hext, he⟩ hn

end Wormhole.PosixPath
