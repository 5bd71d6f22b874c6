import Wormhole.L4App.NamespaceManager

/-!
# Namespaces after a restart

`src/wh/enterprise/namespace.py`: memory and directory are two copies of the namespaces,
written one after the other by every call. `Mirrored` says how they agree, `Changes` what a
call can do to them as long as `create` is given names that the file system takes.
`survives_restart_iff` follows: in every state of a run, a manager that is started on the
directory has the namespaces of the one before it, exactly when `create` is.
-/
namespace Wormhole.L4.Namespaces
open Wormhole.L1 Wormhole.L4.Wns

variable {C : Crypto} {Y : Yaml} {U : Unicode} {refuses : String → Option String}

/-! ## A namespace and its file -/

theorem item_obj (fields : List (String × Json)) (key : String) :
    item (.obj fields) key = Dict.lookup key fields := rfl

theorem textsItem_texts {data : Json} {key : String} {xs : List String}
    (h : item data key = some (texts xs)) : textsItem data key = some xs := by
  unfold textsItem
  rw [h, texts]
  dsimp only
  clear h
  induction xs with
  | nil => rfl
  | cons x xs ih =>
    rw [List.map_cons, List.mapM_cons, ih]
    rfl

theorem initPrefix_of_ne (name : String) {p : String} (h : p ≠ "") :
    initPrefix C name (some p) = p := by
  simp [initPrefix, h]

/-- What `to_dict` gives, `from_dict` takes back. -/
theorem fromDict_toDict (ns : Namespace) (now : String) :
    Namespace.fromDict C ns.toDict now = some ns := by
  have hprefix := initPrefix_of_ne (C := C) ns.name ns.hasPrefix
  have hdescription : textItem ns.toDict "description" = ns.description := by
    cases h : ns.description <;> simp [textItem, Namespace.toDict, item_obj, Dict.lookup, h]
  have hmax : intItem ns.toDict "max_members" = ns.maxMembers := by
    cases h : ns.maxMembers <;> simp [intItem, Namespace.toDict, item_obj, Dict.lookup, h]
  have hadmins : textsItem ns.toDict "admins" = some ns.admins := textsItem_texts rfl
  have hmembers : textsItem ns.toDict "members" = some ns.members := textsItem_texts rfl
  unfold Namespace.fromDict
  rw [hdescription, hmax, hadmins, hmembers]
  simp [Namespace.toDict, textItem, boolItem, item_obj, Dict.lookup, hprefix]

theorem readNamespace_dump (ns : Namespace) (now : String) :
    readNamespace C Y now (Y.dump ns.toDict) = some ns := by
  unfold readNamespace
  rw [Y.load_dump]
  exact fromDict_toDict ns now

theorem namespacePath_inj {a b : String} (h : namespacePath a = namespacePath b) : a = b := by
  have hchars := congrArg String.toList h
  simp only [namespacePath, String.toList_append] at hchars
  exact String.toList_inj.mp (List.append_cancel_right hchars)

/-! ## What a call does -/

/-- A call leaves everything as it is, stores a namespace under its name and writes its file,
or takes a namespace other than the default one away with its file. -/
inductive Changes (refuses : String → Option String) (m : NamespaceManager Y) :
    NamespaceManager Y → Prop
  | same : Changes refuses m m
  | save (name : String) (ns : Namespace) (h : ns.name = name)
      (htaken : refuses (namespacePath name) = none) :
    Changes refuses m ⟨m.namespaces.set name ns,
      m.files.set (namespacePath ns.name) (Y.dump ns.toDict)⟩
  | delete (name : String) (h : name ≠ DEFAULT_NAMESPACE) :
    Changes refuses m ⟨m.namespaces.del name, m.files.del (namespacePath name)⟩

/-- A name that `create` takes is the name of a file that the file system takes. -/
def Storable (U : Unicode) (refuses : String → Option String) (m : NamespaceManager Y) (c : Call) :
    Prop :=
  match c with
  | .create name .. => validName U name.toList = true → m.namespaces.get? name = none →
    refuses (namespacePath name) = none
  | _ => True

/-- What is held in memory has a file name that the file system takes. -/
def Taken (refuses : String → Option String) (m : NamespaceManager Y) : Prop :=
  ∀ n ns, m.namespaces.get? n = some ns → refuses (namespacePath n) = none

theorem get_eq_ok {m : NamespaceManager Y} {name : String} {ns : Namespace} :
    m.get name = .ok ns ↔ m.namespaces.get? name = some ns := by
  unfold NamespaceManager.get
  cases m.namespaces.get? name <;> simp

theorem changes_saved {m : NamespaceManager Y} {name : String} {ns : Namespace}
    (hname : ns.name = name) (htaken : refuses (namespacePath name) = none) :
    Changes refuses m (m.saveNamespace refuses name ns).1 := by
  rw [NamespaceManager.saveNamespace_of_taken m name (hname ▸ htaken)]
  exact .save name ns hname htaken

/-- The calls that change one namespace in place. -/
theorem changes_inPlace {m : NamespaceManager Y} {name : String}
    {change : Namespace → NamespaceManager Y × Option Raised}
    (hnamed : ∀ n ns, m.namespaces.get? n = some ns → ns.name = n) (htaken : Taken refuses m)
    (hchange : ∀ ns, (change ns).1 = m ∨
      ∃ ns', change ns = m.saveNamespace refuses name ns' ∧ ns'.name = ns.name) :
    Changes refuses m (match m.get name with
      | .error e => (m, some e)
      | .ok ns => change ns).1 := by
  cases hget : m.get name with
  | error e => exact .same
  | ok ns =>
    have hns := get_eq_ok.mp hget
    dsimp only
    rcases hchange ns with hsame | ⟨ns', hsaved, hname⟩
    · rw [hsame]
      exact .same
    · rw [hsaved]
      exact changes_saved (hname.trans (hnamed name ns hns)) (htaken name ns hns)

theorem changes_after {m : NamespaceManager Y} {c : Call}
    (hnamed : ∀ n ns, m.namespaces.get? n = some ns → ns.name = n) (htaken : Taken refuses m)
    (hstorable : Storable U refuses m c) : Changes refuses m (m.after C U refuses c) := by
  unfold NamespaceManager.after
  cases c with
  | create name description admins isPublic maxMembers now =>
    unfold NamespaceManager.call NamespaceManager.create
    dsimp only
    split
    · exact .same
    · rename_i hvalid
      split
      · exact .same
      · rename_i hnew
        refine changes_saved rfl (hstorable ?_ ?_)
        · simpa using hvalid
        · simpa using hnew
  | delete name force =>
    unfold NamespaceManager.call NamespaceManager.delete
    dsimp only
    split
    · exact .same
    · rename_i hne
      split
      · exact .same
      · split
        · exact .same
        · exact .delete name hne
  | update name description isPublic maxMembers =>
    exact changes_inPlace hnamed htaken fun ns => .inr ⟨_, rfl, rfl⟩
  | addAdmin name identity =>
    refine changes_inPlace hnamed htaken fun ns => ?_
    split
    · exact .inl rfl
    · exact .inr ⟨_, rfl, rfl⟩
  | removeAdmin name identity =>
    refine changes_inPlace hnamed htaken fun ns => ?_
    split
    · exact .inr ⟨_, rfl, rfl⟩
    · exact .inl rfl
  | addMember name identity =>
    refine changes_inPlace hnamed htaken fun ns => ?_
    split
    · exact .inl rfl
    · split
      · exact .inl rfl
      · exact .inr ⟨_, rfl, rfl⟩
  | removeMember name identity =>
    refine changes_inPlace hnamed htaken fun ns => ?_
    split
    · exact .inr ⟨_, rfl, rfl⟩
    · exact .inl rfl

/-! ## Memory and directory -/

/-- Every namespace is stored under its name and written to its file, save the default one
before it is first changed; there is no other file. -/
structure Mirrored (C : Crypto) (m : NamespaceManager Y) : Prop where
  named : ∀ n ns, m.namespaces.get? n = some ns → ns.name = n
  written : ∀ n ns, m.namespaces.get? n = some ns →
    m.files.get? (namespacePath n) = some (Y.dump ns.toDict) ∨
      n = DEFAULT_NAMESPACE ∧ m.files.get? (namespacePath n) = none ∧
        ∃ now, ns = defaultNamespace C now
  only : ∀ file text, m.files.get? file = some text →
    ∃ n ns, file = namespacePath n ∧ m.namespaces.get? n = some ns
  hasDefault : (m.namespaces.get? DEFAULT_NAMESPACE).isSome = true

theorem mirrored_fresh (now : String) : Mirrored C (.fresh C Y now) := by
  have hget : ∀ n, (NamespaceManager.fresh C Y now).namespaces.get? n =
      if DEFAULT_NAMESPACE = n then some (defaultNamespace C now) else none := by
    intro n
    exact (Dict.get?_set _ _ _ _).trans (by simp)
  constructor
  · intro n ns hns
    rw [hget] at hns
    split at hns
    · rename_i hn
      cases hns
      exact hn
    · cases hns
  · intro n ns hns
    rw [hget] at hns
    split at hns
    · rename_i hn
      cases hns
      exact .inr ⟨hn.symm, rfl, now, rfl⟩
    · cases hns
  · intro file text h
    cases h
  · rw [hget]
    rfl

theorem Mirrored.save {m : NamespaceManager Y} (h : Mirrored C m) {name : String}
    {ns : Namespace} (hname : ns.name = name) :
    Mirrored C (⟨m.namespaces.set name ns,
      m.files.set (namespacePath ns.name) (Y.dump ns.toDict)⟩ : NamespaceManager Y) := by
  subst hname
  have hmem : ∀ n, (m.namespaces.set ns.name ns).get? n =
      if ns.name = n then some ns else m.namespaces.get? n := fun n => Dict.get?_set _ _ _ _
  have hfile : ∀ file, (m.files.set (namespacePath ns.name) (Y.dump ns.toDict)).get? file =
      if namespacePath ns.name = file then some (Y.dump ns.toDict) else m.files.get? file :=
    fun file => Dict.get?_set _ _ _ _
  constructor
  · intro n ns' hns
    rw [hmem] at hns
    by_cases hn : ns.name = n
    · rw [if_pos hn, Option.some.injEq] at hns
      rw [← hns, hn]
    · rw [if_neg hn] at hns
      exact h.named n ns' hns
  · intro n ns' hns
    rw [hmem] at hns
    by_cases hn : ns.name = n
    · rw [if_pos hn, Option.some.injEq] at hns
      left
      rw [hfile, if_pos (congrArg namespacePath hn), hns]
    · have hpath : namespacePath ns.name ≠ namespacePath n := fun he => hn (namespacePath_inj he)
      rw [if_neg hn] at hns
      rw [hfile, if_neg hpath]
      exact h.written n ns' hns
  · intro file text htext
    rw [hfile] at htext
    by_cases hf : namespacePath ns.name = file
    · exact ⟨ns.name, ns, hf.symm, by rw [hmem, if_pos rfl]⟩
    · rw [if_neg hf] at htext
      obtain ⟨n, ns', hpath, hns'⟩ := h.only file text htext
      have hn : ns.name ≠ n := fun he => hf (he ▸ hpath.symm)
      exact ⟨n, ns', hpath, by rw [hmem, if_neg hn, hns']⟩
  · rw [hmem]
    split
    · rfl
    · exact h.hasDefault

theorem Mirrored.delete {m : NamespaceManager Y} (h : Mirrored C m) {name : String}
    (hne : name ≠ DEFAULT_NAMESPACE) :
    Mirrored C (⟨m.namespaces.del name, m.files.del (namespacePath name)⟩ :
      NamespaceManager Y) := by
  constructor
  · intro n ns hns
    rw [Dict.get?_del] at hns
    split at hns
    · cases hns
    · exact h.named n ns hns
  · intro n ns hns
    rw [Dict.get?_del] at hns
    split at hns
    · cases hns
    · rename_i hn
      have hpath : namespacePath name ≠ namespacePath n :=
        fun he => hn (namespacePath_inj he)
      rw [Dict.get?_del_ne _ hpath]
      exact h.written n ns hns
  · intro file text htext
    rw [Dict.get?_del] at htext
    split at htext
    · cases htext
    · rename_i hf
      obtain ⟨n, ns, hpath, hns⟩ := h.only file text htext
      have hn : name ≠ n := fun he => hf (he ▸ hpath.symm)
      exact ⟨n, ns, hpath, by rw [Dict.get?_del_ne _ hn, hns]⟩
  · rw [Dict.get?_del_ne _ hne]
    exact h.hasDefault

theorem Mirrored.changes {m m' : NamespaceManager Y} (h : Mirrored C m)
    (hc : Changes refuses m m') : Mirrored C m' := by
  cases hc with
  | same => exact h
  | save name ns hname => exact h.save hname
  | delete name hne => exact h.delete hne

theorem Taken.changes {m m' : NamespaceManager Y} (h : Taken refuses m)
    (hc : Changes refuses m m') : Taken refuses m' := by
  cases hc with
  | same => exact h
  | save name ns hname htaken =>
    intro n ns' hns
    rw [Dict.get?_set] at hns
    split at hns
    · rename_i hn
      exact hn ▸ htaken
    · exact h n ns' hns
  | delete name hne =>
    intro n ns hns
    rw [Dict.get?_del] at hns
    split at hns
    · cases hns
    · exact h n ns hns

/-! ## Reading the directory -/

theorem loadFiles_cons {now : String} {text : Y.Text} {texts : List Y.Text}
    {namespaces : Dict String Namespace} {ns : Namespace}
    (h : readNamespace C Y now text = some ns) :
    loadFiles C Y now (text :: texts) namespaces =
      loadFiles C Y now texts (namespaces.set ns.name ns) := by
  simp [loadFiles, h]

/-- The files are those of `dumped`, one namespace each: what is read under a name is the
namespace of that name among them, or else what was there. -/
theorem get?_loadFiles {now n : String} :
    ∀ {dumped : List Namespace} (namespaces : Dict String Namespace),
      (dumped.map Namespace.name).Nodup →
      (loadFiles C Y now (dumped.map fun ns => Y.dump ns.toDict) namespaces).get? n =
        (dumped.find? fun ns => ns.name = n).or (namespaces.get? n)
  | [], namespaces, _ => rfl
  | ns :: dumped, namespaces, hnodup => by
    rw [List.map_cons, List.nodup_cons] at hnodup
    rw [List.map_cons, loadFiles_cons (readNamespace_dump ns now), get?_loadFiles _ hnodup.2,
      List.find?_cons, Dict.get?_set]
    by_cases hn : ns.name = n
    · have hnone : dumped.find? (fun ns => ns.name = n) = none := by
        rw [List.find?_eq_none]
        intro ns' hmem hname
        exact hnodup.1 (List.mem_map.mpr ⟨ns', hmem, by simpa [hn] using hname⟩)
      simp [hn, hnone]
    · simp [hn]

theorem isYamlFile_path (name : String) : isYamlFile (namespacePath name) = true := by
  simp [isYamlFile, namespacePath]

/-- The entry of the directory for a namespace. -/
def fileOf (Y : Yaml) (ns : Namespace) : String × Y.Text :=
  (namespacePath ns.name, Y.dump ns.toDict)

/-- The listed files, as the namespaces that were dumped into them. -/
theorem Mirrored.dumped {m : NamespaceManager Y} (h : Mirrored C m)
    {listed : List (String × Y.Text)} (hl : listed.Perm m.files.entries) :
    ∃ dumped : List Namespace,
      listed = dumped.map (fileOf Y) ∧
      ∀ ns ∈ dumped, m.namespaces.get? ns.name = some ns := by
  have hentry : ∀ f ∈ listed, ∃ ns, fileOf Y ns = f ∧ m.namespaces.get? ns.name = some ns := by
    intro f hf
    have hfile := Dict.mem_entries.mp (hl.mem_iff.mp hf)
    obtain ⟨n, ns, hpath, hns⟩ := h.only f.1 f.2 hfile
    have hname := h.named n ns hns
    subst hname
    refine ⟨ns, ?_, hns⟩
    rcases h.written ns.name ns hns with hw | ⟨_, hnone, _⟩
    · rw [← hpath, hfile, Option.some.injEq] at hw
      exact Prod.ext hpath.symm hw.symm
    · rw [← hpath, hfile] at hnone
      cases hnone
  have hne : Nonempty Namespace := ⟨defaultNamespace C ""⟩
  choose! g hg using hentry
  refine ⟨listed.map g, ?_, ?_⟩
  · rw [List.map_map]
    have hid : listed.map id = listed := List.map_id listed
    exact hid.symm.trans (List.map_congr_left fun f hf => (hg f hf).1.symm)
  · intro ns hns
    obtain ⟨f, hf, rfl⟩ := List.mem_map.mp hns
    exact (hg f hf).2

section Restart

variable {m : NamespaceManager Y} {dumped : List Namespace}

theorem names_nodup (hl : (dumped.map (fileOf Y)).Perm m.files.entries) :
    (dumped.map Namespace.name).Nodup := by
  have hkeys := (hl.map Prod.fst).nodup_iff.mpr m.files.nodup
  have hpaths : (dumped.map (fileOf Y)).map Prod.fst =
      (dumped.map Namespace.name).map namespacePath := by
    rw [List.map_map, List.map_map]
    rfl
  rw [hpaths] at hkeys
  exact hkeys.of_map

theorem restarted_get? (hl : (dumped.map (fileOf Y)).Perm m.files.entries) (now n : String) :
    (m.restarted C now (dumped.map (fileOf Y))).namespaces.get? n =
      (dumped.find? fun ns => ns.name = n).or
        ((Dict.empty.set DEFAULT_NAMESPACE (defaultNamespace C now)).get? n) := by
  have hall : (dumped.map (fileOf Y)).filter (fun f => isYamlFile f.1) =
      dumped.map (fileOf Y) := by
    rw [List.filter_eq_self]
    intro f hf
    obtain ⟨ns, _, rfl⟩ := List.mem_map.mp hf
    exact isYamlFile_path ns.name
  unfold NamespaceManager.restarted loadNamespaces
  rw [hall, List.map_map]
  exact get?_loadFiles _ (names_nodup hl)

/-- No namespace of the name was dumped: its file is not there. -/
theorem unwritten_of_find? (hl : (dumped.map (fileOf Y)).Perm m.files.entries) {n : String}
    (hfind : dumped.find? (fun ns => ns.name = n) = none) :
    m.files.get? (namespacePath n) = none := by
  cases hfile : m.files.get? (namespacePath n) with
  | none => rfl
  | some text =>
    have hmem := hl.mem_iff.mpr (Dict.mem_entries.mpr hfile)
    obtain ⟨ns, hns, hpath⟩ := List.mem_map.mp hmem
    have hname : ns.name = n := namespacePath_inj (congrArg Prod.fst hpath)
    have hnot := List.find?_eq_none.mp hfind ns hns
    simp [hname] at hnot

end Restart

/-- A manager that is started on the directory, in whatever order its files are listed, has the
namespaces of `m`, equal in every field. Only a default namespace that was never written has the
time of the new start. -/
def Survives (C : Crypto) (m : NamespaceManager Y) : Prop :=
  ∀ listed : List (String × Y.Text), listed.Perm m.files.entries → ∀ now n : String,
    (m.restarted C now listed).namespaces.get? n = m.namespaces.get? n ∨
      n = DEFAULT_NAMESPACE ∧ m.files.get? (namespacePath n) = none ∧
        ∃ ns, m.namespaces.get? n = some ns ∧
          (m.restarted C now listed).namespaces.get? n = some { ns with createdAt := now }

theorem Mirrored.survives {m : NamespaceManager Y} (h : Mirrored C m) : Survives C m := by
  intro listed hl now n
  obtain ⟨dumped, rfl, hdumped⟩ := h.dumped hl
  rw [restarted_get? hl]
  cases hfind : dumped.find? fun ns => ns.name = n with
  | some ns =>
    have hname : ns.name = n := by simpa using List.find?_some hfind
    have hns := hdumped ns (List.mem_of_find?_eq_some hfind)
    left
    rw [← hname, hns]
    rfl
  | none =>
    have hfile := unwritten_of_find? hl hfind
    rw [Option.none_or, Dict.get?_set]
    cases hmem : m.namespaces.get? n with
    | none =>
      left
      have hne : DEFAULT_NAMESPACE ≠ n := by
        intro heq
        have hdefault := h.hasDefault
        rw [heq, hmem] at hdefault
        cases hdefault
      rw [if_neg hne]
      rfl
    | some ns =>
      rcases h.written n ns hmem with hw | ⟨rfl, _, created, rfl⟩
      · rw [hfile] at hw
        cases hw
      · exact .inr ⟨rfl, hfile, _, rfl, if_pos rfl⟩

/-- `create` under a name that the file system does not take: the namespace is in memory and the
exception is passed on. -/
theorem create_refused {m : NamespaceManager Y} {name message : String}
    {description : Option String} {admins : List String} {isPublic : Bool}
    {maxMembers : Option Int} {now : String} (hvalid : validName U name.toList = true)
    (hnew : m.namespaces.get? name = none)
    (hrefused : refuses (namespacePath name) = some message) :
    m.call C U refuses (.create name description admins isPublic maxMembers now) =
      (⟨m.namespaces.set name (created C name description admins isPublic maxMembers now),
        m.files⟩, some ⟨.os, message⟩) := by
  have hpath : refuses (namespacePath (created C name description admins isPublic maxMembers
    now).name) = some message := hrefused
  simp [NamespaceManager.call, NamespaceManager.create, hvalid, hnew,
    NamespaceManager.saveNamespace, hpath]

/-- A namespace that is made under a name that the file system does not take is in memory, and
no manager finds it in the directory. -/
theorem lost_of_refused {m : NamespaceManager Y} (h : Mirrored C m) {name message : String}
    {description : Option String} {admins : List String} {isPublic : Bool}
    {maxMembers : Option Int} {now : String} (hvalid : validName U name.toList = true)
    (hnew : m.namespaces.get? name = none)
    (hrefused : refuses (namespacePath name) = some message) :
    ¬ Survives C (m.after C U refuses
      (.create name description admins isPublic maxMembers now)) := by
  have hcall : m.after C U refuses (.create name description admins isPublic maxMembers now) =
      ⟨m.namespaces.set name (created C name description admins isPublic maxMembers now),
        m.files⟩ := congrArg Prod.fst (create_refused hvalid hnew hrefused)
  have hne : name ≠ DEFAULT_NAMESPACE := by
    intro heq
    have hdefault := h.hasDefault
    rw [← heq, hnew] at hdefault
    cases hdefault
  rw [hcall]
  intro hsurvives
  rcases hsurvives m.files.entries (List.Perm.refl _) now name with hsame | ⟨heq, -⟩
  · -- the directory is the one of `m`, which has no namespace of the name
    have hold : (m.restarted C now m.files.entries).namespaces.get? name =
        m.namespaces.get? name := by
      rcases h.survives m.files.entries (List.Perm.refl _) now name with hsame | ⟨heq, -⟩
      · exact hsame
      · exact absurd heq hne
    rw [Dict.get?_set_self] at hsame
    have hnone := hold.trans hnew
    have hlost := hsame.symm.trans hnone
    cases hlost
  · exact absurd heq hne

theorem survives_iff_storable {m : NamespaceManager Y} {c : Call} (h : Mirrored C m)
    (htaken : Taken refuses m) :
    Survives C (m.after C U refuses c) ↔ Storable U refuses m c := by
  constructor
  · intro hsurvives
    unfold Storable
    split
    · intro hvalid hnew
      cases hrefused : refuses (namespacePath _) with
      | none => rfl
      | some message => exact absurd hsurvives (lost_of_refused h hvalid hnew hrefused)
    · trivial
  · intro hstorable
    exact (h.changes (changes_after h.named htaken hstorable)).survives

/-- **Namespaces survive a restart** in every state of a run, where the file system takes the
name of the default namespace's file, exactly when each name under which `create` makes a
namespace is the name of a file that the file system takes. -/
theorem survives_restart_iff (hdefault : refuses (namespacePath DEFAULT_NAMESPACE) = none)
    {now : String} {calls : List Call} {m : NamespaceManager Y} :
    (Survives C (.fresh C Y now) ∧
        ((system C Y U refuses).restrict fun m c => Survives C (m.after C U refuses c)).Run
          (.fresh C Y now) calls m) ↔
      ((system C Y U refuses).restrict (Storable U refuses)).Run (.fresh C Y now) calls m := by
  have hfresh : Mirrored C (.fresh C Y now) := mirrored_fresh now
  rw [and_iff_right hfresh.survives]
  apply LTS.Run.restrict_iff_restrict (I := fun m => Mirrored C m ∧ Taken refuses m)
  · intro m c m' hm hsurvives hstep
    cases hstep
    obtain ⟨h, htaken⟩ := hm
    have hstorable := (survives_iff_storable h htaken).mp hsurvives
    have hchanges := changes_after (C := C) h.named htaken hstorable
    exact ⟨h.changes hchanges, htaken.changes hchanges⟩
  · intro m c m' hm _
    exact survives_iff_storable hm.1 hm.2
  · refine ⟨hfresh, ?_⟩
    intro n ns hns
    have hget : (NamespaceManager.fresh C Y now).namespaces.get? n =
        if DEFAULT_NAMESPACE = n then some (defaultNamespace C now) else none :=
      (Dict.get?_set _ _ _ _).trans (by simp)
    rw [hget] at hns
    split at hns
    · rename_i hn
      rw [← hn]
      exact hdefault
    · cases hns

/-- Two namespaces after a few calls, one of which raises. -/
def teamCalls : List Call :=
  [.create "team" none ["alice"] false (some 2) "t1", .addMember "team" "bob",
    .create "team" (some "again") [] true none "t2", .create "lab" none [] true none "t3",
    .addAdmin "lab" "carol", .delete "lab" true]

def shortName : Call → Bool
  | .create name .. => (tooLong (namespacePath name)).isNone
  | _ => true

def teamManager : NamespaceManager Yaml.plain :=
  LTS.after (LTS.checked (fun _ c => shortName c)
    fun m c => some (m.after Crypto.sample asciiOnly tooLong c))
    (.fresh Crypto.sample Yaml.plain "t0") teamCalls

theorem survives_restart_team :
    (((system Crypto.sample Yaml.plain asciiOnly tooLong).restrict fun m c =>
        Survives Crypto.sample (m.after Crypto.sample asciiOnly tooLong c)).Run
      (.fresh Crypto.sample Yaml.plain "t0") teamCalls teamManager) ∧
    (teamManager.namespaces.get? "team").map Namespace.members = some ["bob"] := by
  have hrun : ((system Crypto.sample Yaml.plain asciiOnly tooLong).restrict
      (Storable asciiOnly tooLong)).Run (.fresh Crypto.sample Yaml.plain "t0") teamCalls
        teamManager := by
    refine LTS.restrict_run_of_exec ?_ (LTS.exec_after (by decide +kernel))
    intro m c hcheck
    cases c with
    | create name => exact fun _ _ => Option.isNone_iff_eq_none.mp hcheck
    | _ => trivial
  refine ⟨((survives_restart_iff (by decide +kernel)).mpr hrun).2, ?_⟩
  decide +kernel

/-- 300 letters. -/
def longName : String := String.ofList (List.replicate 300 'a')

/-- **A namespace that is lost.** `create` raises for a name of 300 letters, and has it in memory
all the same; a restart does not have it. -/
theorem long_name_lost :
    validName asciiOnly longName.toList = true ∧
    (((NamespaceManager.fresh Crypto.sample Yaml.plain "t0").call Crypto.sample asciiOnly tooLong
      (.create longName none [] false none "t1")).2 =
        some ⟨.os, "[Errno 36] File name too long"⟩ ∧
    ¬ Survives Crypto.sample ((NamespaceManager.fresh Crypto.sample Yaml.plain "t0").after
      Crypto.sample asciiOnly tooLong (.create longName none [] false none "t1"))) := by
  have hletters : longName.toList = List.replicate 300 'a' := String.toList_ofList
  have hvalid : validName asciiOnly longName.toList = true := by
    rw [hletters]
    decide +kernel
  have hnew : (NamespaceManager.fresh Crypto.sample Yaml.plain "t0").namespaces.get? longName =
      none := by
    have hne : DEFAULT_NAMESPACE ≠ longName := by
      intro heq
      have hlength := congrArg (fun s => s.toList.length) heq
      rw [hletters, List.length_replicate] at hlength
      exact absurd hlength (by decide)
    exact (Dict.get?_set _ _ _ _).trans (by rw [if_neg hne]; rfl)
  have hrefused : tooLong (namespacePath longName) = some "[Errno 36] File name too long" := by
    simp only [tooLong, namespacePath, String.toList_append, hletters]
    decide +kernel
  exact ⟨hvalid, congrArg Prod.snd (create_refused hvalid hnew hrefused),
    lost_of_refused (mirrored_fresh "t0") hvalid hnew hrefused⟩

end Wormhole.L4.Namespaces
