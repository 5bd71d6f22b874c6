import Wormhole.Core.LTS
import Wormhole.L1Encoding.JsBytes
import Wormhole.L1Encoding.Yaml
import Wormhole.L4App.Advertisement
import Wormhole.L4App.WnsUri

/-!
# Namespaces

`src/wh/enterprise/namespace.py`: the namespaces of a `NamespaceManager`, in memory and in
the files of its directory, one for each name, and the calls that change them. A call leaves
a manager behind and returns or raises. Memory is changed before the file is written, so it
stays changed where the file system refuses the file name.

`system` is a manager that was started in an empty directory, under any sequence of calls.

A field of a file that has another type than the manager writes reads as if it were not there.
-/
namespace Wormhole.L4.Namespaces
open Wormhole.L1 Wormhole.L4.Wns

/- `refuses`: the OSError with which the file system meets a file name that it does not take,
such as one that is too long. -/
variable (C : Crypto) (Y : Yaml) (U : Unicode) (refuses : String → Option String)

/-! ## A namespace -/

/-- mirrors src/wh/enterprise/namespace.py:74-78 -/
def generateDhtPrefix (name : String) : String :=
  bytesToHex ((C.sha256 (encode ("wns-namespace:" ++ name))).take 8)

/-- mirrors src/wh/enterprise/namespace.py:69-72 -/
def initPrefix (name : String) (dhtPrefix : Option String) : String :=
  match dhtPrefix with
  | none => generateDhtPrefix C name
  | some p => if p = "" then generateDhtPrefix C name else p

theorem generateDhtPrefix_ne (name : String) : generateDhtPrefix C name ≠ "" := by
  have hlen := C.length_sha256 (encode ("wns-namespace:" ++ name))
  have hpair : ∀ b, byteHex b ≠ [] := by
    intro b hb
    have hpad := congrArg List.length hb
    simp only [byteHex, padStart, List.length_append, List.length_replicate,
      List.length_nil] at hpad
    omega
  unfold generateDhtPrefix bytesToHex
  cases hdigest : C.sha256 (encode ("wns-namespace:" ++ name)) with
  | nil => simp [hdigest] at hlen
  | cons b bs =>
    intro hempty
    have hnil := congrArg String.toList hempty
    simp [hpair b] at hnil

theorem initPrefix_ne (name : String) (dhtPrefix : Option String) :
    initPrefix C name dhtPrefix ≠ "" := by
  unfold initPrefix
  cases dhtPrefix with
  | none => exact generateDhtPrefix_ne C name
  | some p =>
    by_cases hp : p = ""
    · simpa [hp] using generateDhtPrefix_ne C name
    · simp [hp]

/-- A namespace has a prefix from its construction on.
mirrors src/wh/enterprise/namespace.py:48-66 -/
structure Namespace where
  name : String
  createdAt : String
  description : Option String
  dhtPrefix : String
  admins : List String
  members : List String
  isPublic : Bool
  maxMembers : Option Int
  metadata : Json
  hasPrefix : dhtPrefix ≠ ""

def texts (xs : List String) : Json := .arr (xs.map .str)

/-- mirrors src/wh/enterprise/namespace.py:80-92 -/
def Namespace.toDict (ns : Namespace) : Json :=
  .obj [("name", .str ns.name), ("created_at", .str ns.createdAt),
    ("description", (ns.description.map .str).getD .null), ("dht_prefix", .str ns.dhtPrefix),
    ("admins", texts ns.admins), ("members", texts ns.members), ("public", .bool ns.isPublic),
    ("max_members", (ns.maxMembers.map .int).getD .null), ("metadata", ns.metadata)]

def textsItem (data : Json) (key : String) : Option (List String) :=
  match item data key with
  | some (.arr xs) => xs.mapM fun x => match x with
    | .str s => some s
    | _ => none
  | _ => none

def boolItem (data : Json) (key : String) : Option Bool :=
  match item data key with
  | some (.bool b) => some b
  | _ => none

def intItem (data : Json) (key : String) : Option Int :=
  match item data key with
  | some (.int n) => some n
  | _ => none

/-- `none` is the `KeyError` for the name.
mirrors src/wh/enterprise/namespace.py:94-107 -/
def Namespace.fromDict (data : Json) (now : String) : Option Namespace :=
  (textItem data "name").map fun name =>
    { name := name
      createdAt := (textItem data "created_at").getD now
      description := textItem data "description"
      dhtPrefix := initPrefix C name (textItem data "dht_prefix")
      admins := (textsItem data "admins").getD []
      members := (textsItem data "members").getD []
      isPublic := (boolItem data "public").getD false
      maxMembers := intItem data "max_members"
      metadata := (item data "metadata").getD (.obj [])
      hasPrefix := initPrefix_ne C name (textItem data "dht_prefix") }

/-! ## The manager -/

/-- The namespaces by name, and the files of the directory by their names. -/
structure NamespaceManager where
  namespaces : Dict String Namespace
  files : Dict String Y.Text

def DEFAULT_NAMESPACE : String := "default"

/-- mirrors src/wh/enterprise/namespace.py:146-148 -/
def namespacePath (name : String) : String := name ++ ".yaml"

/-- mirrors src/wh/enterprise/namespace.py:155-160 -/
def defaultNamespace (now : String) : Namespace where
  name := DEFAULT_NAMESPACE
  createdAt := now
  description := some "Default namespace"
  dhtPrefix := initPrefix C DEFAULT_NAMESPACE none
  admins := []
  members := []
  isPublic := true
  maxMembers := none
  metadata := .obj []
  hasPrefix := initPrefix_ne C DEFAULT_NAMESPACE none

/-- The namespace that `create` makes. -/
def created (name : String) (description : Option String) (admins : List String)
    (isPublic : Bool) (maxMembers : Option Int) (now : String) : Namespace where
  name := name
  createdAt := now
  description := description
  dhtPrefix := initPrefix C name none
  admins := admins
  members := []
  isPublic := isPublic
  maxMembers := maxMembers
  metadata := .obj []
  hasPrefix := initPrefix_ne C name none

/-- `yaml.safe_load(f) or {}` and `from_dict`; a file that raises is passed over. -/
def readNamespace (now : String) (text : Y.Text) : Option Namespace :=
  (Y.load text).bind fun data => Namespace.fromDict C data now

/-- The namespaces after the files of `texts`, over those that were there. -/
def loadFiles (now : String) (texts : List Y.Text) (namespaces : Dict String Namespace) :
    Dict String Namespace :=
  texts.foldl (fun namespaces text =>
    match readNamespace C Y now text with
    | some ns => namespaces.set ns.name ns
    | none => namespaces) namespaces

/-- `*.yaml` -/
def isYamlFile (file : String) : Bool := ".yaml".toList.isSuffixOf file.toList

/-- The files are read in the order in which the directory lists them.
mirrors src/wh/enterprise/namespace.py:150-170 -/
def loadNamespaces (now : String) (listed : List (String × Y.Text)) : Dict String Namespace :=
  loadFiles C Y now ((listed.filter fun f => isYamlFile f.1).map Prod.snd)
    (Dict.empty.set DEFAULT_NAMESPACE (defaultNamespace C now))

/-- A manager started in an empty directory. -/
def NamespaceManager.fresh (now : String) : NamespaceManager Y :=
  ⟨loadNamespaces C Y now [], Dict.empty⟩

/-- Another manager, started in the directory of `m`. -/
def NamespaceManager.restarted {Y : Yaml} (m : NamespaceManager Y) (now : String)
    (listed : List (String × Y.Text)) : NamespaceManager Y :=
  ⟨loadNamespaces C Y now listed, m.files⟩

/-! ## Calls -/

inductive Exception
  | value
  | namespaceExists
  | namespaceNotFound
  | os
deriving DecidableEq

structure Raised where
  exception : Exception
  message : String
deriving DecidableEq

inductive Call
  | create (name : String) (description : Option String) (admins : List String)
      (isPublic : Bool) (maxMembers : Option Int) (now : String)
  | delete (name : String) (force : Bool)
  | update (name : String) (description : Option String) (isPublic : Option Bool)
      (maxMembers : Option Int)
  | addAdmin (name identity : String)
  | removeAdmin (name identity : String)
  | addMember (name identity : String)
  | removeMember (name identity : String)

namespace NamespaceManager

variable {Y}

/-- The namespace that memory has under `name` from now on, and the file written for it.
mirrors src/wh/enterprise/namespace.py:172-176 -/
def saveNamespace (m : NamespaceManager Y) (name : String) (ns : Namespace) :
    NamespaceManager Y × Option Raised :=
  match refuses (namespacePath ns.name) with
  | none => (⟨m.namespaces.set name ns,
      m.files.set (namespacePath ns.name) (Y.dump ns.toDict)⟩, none)
  | some message => ({ m with namespaces := m.namespaces.set name ns }, some ⟨.os, message⟩)

/-- mirrors src/wh/enterprise/namespace.py:188-203 -/
def get (m : NamespaceManager Y) (name : String) : Except Raised Namespace :=
  match m.namespaces.get? name with
  | some ns => .ok ns
  | none => .error ⟨.namespaceNotFound, s!"Namespace not found: {name}"⟩

/-- mirrors src/wh/enterprise/namespace.py:209-253 -/
def create (m : NamespaceManager Y) (name : String) (description : Option String)
    (admins : List String) (isPublic : Bool) (maxMembers : Option Int) (now : String) :
    NamespaceManager Y × Option Raised :=
  if !validName U name.toList then (m, some ⟨.value, s!"Invalid namespace name: {name}"⟩)
  else if (m.namespaces.get? name).isSome then
    (m, some ⟨.namespaceExists, s!"Namespace already exists: {name}"⟩)
  else m.saveNamespace refuses name (created C name description admins isPublic maxMembers now)

/-- The file is looked for before it is removed, and that too raises for a name that the file
system does not take.
mirrors src/wh/enterprise/namespace.py:178-182,255-281 -/
def delete (m : NamespaceManager Y) (name : String) (force : Bool) :
    NamespaceManager Y × Option Raised :=
  if name = DEFAULT_NAMESPACE then (m, some ⟨.value, "Cannot delete default namespace"⟩)
  else match m.get name with
  | .error e => (m, some e)
  | .ok ns =>
    if !force && !ns.members.isEmpty then
      (m, some ⟨.value,
        s!"Namespace has {ns.members.length} members. Use force=True to delete."⟩)
    else (⟨m.namespaces.del name, m.files.del (namespacePath name)⟩,
      (refuses (namespacePath name)).map fun message => ⟨.os, message⟩)

/-- mirrors src/wh/enterprise/namespace.py:283-312 -/
def update (m : NamespaceManager Y) (name : String) (description : Option String)
    (isPublic : Option Bool) (maxMembers : Option Int) : NamespaceManager Y × Option Raised :=
  match m.get name with
  | .error e => (m, some e)
  | .ok ns => m.saveNamespace refuses name { ns with
      description := description.or ns.description
      isPublic := isPublic.getD ns.isPublic
      maxMembers := maxMembers.or ns.maxMembers }

/-- mirrors src/wh/enterprise/namespace.py:314-320 -/
def addAdmin (m : NamespaceManager Y) (name identity : String) :
    NamespaceManager Y × Option Raised :=
  match m.get name with
  | .error e => (m, some e)
  | .ok ns =>
    if identity ∈ ns.admins then (m, none)
    else m.saveNamespace refuses name { ns with admins := ns.admins ++ [identity] }

/-- mirrors src/wh/enterprise/namespace.py:322-328 -/
def removeAdmin (m : NamespaceManager Y) (name identity : String) :
    NamespaceManager Y × Option Raised :=
  match m.get name with
  | .error e => (m, some e)
  | .ok ns =>
    if identity ∈ ns.admins then
      m.saveNamespace refuses name { ns with admins := ns.admins.erase identity }
    else (m, none)

/-- `max_members and len(members) >= max_members` -/
def memberLimit (ns : Namespace) : Option Int :=
  ns.maxMembers.filter fun k => k ≠ 0 && k ≤ ns.members.length

/-- The ValueError of `add_member`. -/
def limitReached (k : Int) : Raised := ⟨.value, s!"Namespace has reached member limit: {k}"⟩

/-- mirrors src/wh/enterprise/namespace.py:330-340 -/
def addMember (m : NamespaceManager Y) (name identity : String) :
    NamespaceManager Y × Option Raised :=
  match m.get name with
  | .error e => (m, some e)
  | .ok ns =>
    match memberLimit ns with
    | some k => (m, some (limitReached k))
    | none =>
      if identity ∈ ns.members then (m, none)
      else m.saveNamespace refuses name { ns with members := ns.members ++ [identity] }

/-- mirrors src/wh/enterprise/namespace.py:342-348 -/
def removeMember (m : NamespaceManager Y) (name identity : String) :
    NamespaceManager Y × Option Raised :=
  match m.get name with
  | .error e => (m, some e)
  | .ok ns =>
    if identity ∈ ns.members then
      m.saveNamespace refuses name { ns with members := ns.members.erase identity }
    else (m, none)

/-- What a call leaves behind, and what it raises. -/
def call (m : NamespaceManager Y) : Call → NamespaceManager Y × Option Raised
  | .create name description admins isPublic maxMembers now =>
    m.create C U refuses name description admins isPublic maxMembers now
  | .delete name force => m.delete refuses name force
  | .update name description isPublic maxMembers =>
    m.update refuses name description isPublic maxMembers
  | .addAdmin name identity => m.addAdmin refuses name identity
  | .removeAdmin name identity => m.removeAdmin refuses name identity
  | .addMember name identity => m.addMember refuses name identity
  | .removeMember name identity => m.removeMember refuses name identity

/-- The manager after a call. -/
def after (m : NamespaceManager Y) (c : Call) : NamespaceManager Y := (m.call C U refuses c).1

variable {refuses}

@[simp] theorem saveNamespace_namespaces (m : NamespaceManager Y) (name : String)
    (ns : Namespace) : (m.saveNamespace refuses name ns).1.namespaces =
      m.namespaces.set name ns := by
  unfold saveNamespace
  split <;> rfl

theorem saveNamespace_of_taken (m : NamespaceManager Y) (name : String) {ns : Namespace}
    (h : refuses (namespacePath ns.name) = none) : m.saveNamespace refuses name ns =
      (⟨m.namespaces.set name ns,
        m.files.set (namespacePath ns.name) (Y.dump ns.toDict)⟩, none) := by
  unfold saveNamespace
  rw [h]

end NamespaceManager

/-- For runs: no letter beyond ASCII. -/
def asciiOnly : Unicode := ⟨fun _ => false, id⟩

/-- For runs: a name of more than 255 bytes. -/
def tooLong (file : String) : Option String :=
  if (file.toList.map Char.utf8Size).sum ≤ 255 then none else some "[Errno 36] File name too long"

/-- Any calls, from an empty directory on. -/
def system : LTS (NamespaceManager Y) Call :=
  .ofStep (fun m => ∃ now, m = .fresh C Y now) fun m c => some (m.after C U refuses c)

end Wormhole.L4.Namespaces
