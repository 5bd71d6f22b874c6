import Mathlib.Data.Rat.Defs
import Wormhole.L1Encoding.LdapFilter
import Wormhole.L4App.Authenticators

/-!
# LDAP authentication

`LDAPAuthenticator` of `src/wh/enterprise/auth.py`: the user is searched for
with a filter that the name is written into, the entry that is found first is bound
with the password, and a required group is looked for in its groups. `ldap3` and the
server behind it are the parameter `Ldap3`, of which only this is known: a search
answers with entries of the directory that the filter selects.

* `named_user_iff`: with the default filter, the entry that was bound is the user's for
  every directory exactly when the name has no `*` and no `\` in it and the directory takes
  no other value for it, and the groups are those required exactly when none of them merely
  contains the required one.
* `wildcard_bound`: a name with an asterisk binds another entry, and a group whose name
  is longer than the required one is good enough.
-/
namespace Wormhole.L4.Enterprise
open Wormhole.L1 Wormhole.L1.Ldap

/-! ## The directory -/

/-- A directory: how it compares values, and its entries. -/
structure Directory where
  schema : Schema
  entries : List Entry

/-- No two entries have a `uid` in common. -/
def Directory.UniqueUid (D : Directory) : Prop :=
  D.entries.Pairwise fun a b =>
    ∀ v ∈ a.values "uid", ∀ w ∈ b.values "uid", ¬ D.schema.Same "uid" v w

/-- What a connection is opened with. -/
structure ServerOptions where
  server : String
  useTls : Bool
  timeout : ℚ

/-- `ldap3` and the server it talks to. An error is what was raised. -/
structure Ldap3 where
  installed : Bool
  directory : Directory
  /-- `Connection(server, user, password, auto_bind=True)`; anonymous without a user. -/
  bind : ServerOptions → Option (String × String) → Except String Unit
  /-- The entries of a search, over a connection that is bound. -/
  search : ServerOptions → Option (String × String) → String → String → Except String (List Entry)
  selected : ∀ {server user base text found}, search server user base text = .ok found →
    ∃ f, Filter.ofString text = some f ∧
      ∀ e ∈ found, e ∈ directory.entries ∧ f.eval directory.schema e = some true

/-- A server that answers with all entries the filter selects and takes the given passwords. -/
def Ldap3.ofDirectory (D : Directory) (passwords : String → String → Bool) : Ldap3 where
  installed := true
  directory := D
  bind _ user := if user.all fun u => passwords u.1 u.2 then .ok () else .error "invalidCredentials"
  search _ _ _ text :=
    match Filter.ofString text with
    | some f => .ok (D.entries.filter fun e => f.eval D.schema e = some true)
    | none => .error "malformed filter"
  selected h := by
    split at h
    · rename_i f hf
      cases h
      refine ⟨f, hf, fun e he => ?_⟩
      obtain ⟨hin, hsel⟩ := List.mem_filter.mp he
      exact ⟨hin, of_decide_eq_true hsel⟩
    · cases h

/-! ## The authenticator -/

/-- A `user_filter` with one `{username}`: what stands before it and after it. -/
structure UserFilter where
  before : List Char
  after : List Char

/-- `(uid={username})` -/
def UserFilter.default : UserFilter := ⟨['(', 'u', 'i', 'd', '='], [')']⟩

/-- `user_filter.format(username=username)` -/
def UserFilter.format (f : UserFilter) (username : String) : String :=
  String.ofList (f.before ++ (username.toList ++ f.after))

/-- mirrors src/wh/enterprise/auth.py:347-367 -/
structure LDAPAuthenticator where
  server : String
  baseDn : String
  bindDn : Option String := none
  bindPassword : Option String := none
  userFilter : UserFilter := .default
  groupFilter : Option String := none
  requiredGroup : Option String := none
  useTls : Bool := true
  timeout : ℚ := 10

/-- `required_group in g`: the required group stands somewhere in the name. -/
def mentions (group g : String) : Bool := g.toList.tails.any group.toList.isPrefixOf

/-- The test of the required group.
mirrors src/wh/enterprise/auth.py:459-461 -/
def inRequiredGroup (requiredGroup : Option String) (groups : List String) : Bool :=
  (named requiredGroup).all fun group => groups.any (mentions group)

namespace LDAPAuthenticator

def options (a : LDAPAuthenticator) : ServerOptions := ⟨a.server, a.useTls, a.timeout⟩

/-- The service account, when there is one.
mirrors src/wh/enterprise/auth.py:409-421 -/
def service (a : LDAPAuthenticator) : Option (String × String) :=
  match named a.bindDn, named a.bindPassword with
  | some dn, some password => some (dn, password)
  | _, _ => none

/-- The entry that is found first.
mirrors src/wh/enterprise/auth.py:406-444 -/
def userEntry (L : Ldap3) (a : LDAPAuthenticator) (username : String) :
    Except String (Option Entry) := do
  L.bind a.options a.service
  let entries ← L.search a.options a.service a.baseDn (a.userFilter.format username)
  return entries.head?

/-- mirrors src/wh/enterprise/auth.py:373-487 -/
def authenticate (L : Ldap3) (a : LDAPAuthenticator) (credentials : Credentials) : AuthResult :=
  match named credentials.username, named credentials.password with
  | some username, some password =>
    if !L.installed then .failure "ldap3 library not installed"
    else
      match a.userEntry L username with
      | .error e => .failure ("LDAP error: " ++ e)
      | .ok none => .failure "User not found"
      | .ok (some entry) =>
        let groups := entry.values "memberOf"
        match L.bind a.options (some (entry.dn, password)) with
        | .error e => .failure ("LDAP error: " ++ e)
        | .ok () =>
          if inRequiredGroup a.requiredGroup groups then
            { success := true, identity := some username, groups := groups,
              metadata := [("method", "ldap"), ("dn", entry.dn)] }
          else
            .failure ("User not in required group: " ++ a.requiredGroup.getD "")
  | _, _ => .failure "Missing username or password"

/-- What a success says: the entry, the identity, the bind and the test of the group. -/
structure Succeeded (L : Ldap3) (a : LDAPAuthenticator) (username password : String)
    (entry : Entry) : Prop where
  found : a.userEntry L username = .ok (some entry)
  bound : L.bind a.options (some (entry.dn, password)) = .ok ()
  group : inRequiredGroup a.requiredGroup (entry.values "memberOf") = true

theorem succeeded_iff (L : Ldap3) (a : LDAPAuthenticator) (username password : String) :
    (a.authenticate L { username := some username, password := some password }).success = true ↔
      L.installed = true ∧ username ≠ "" ∧ password ≠ "" ∧
        ∃ entry, Succeeded L a username password entry := by
  unfold authenticate
  by_cases hu : username = ""
  · simp [named, hu, AuthResult.failure]
  by_cases hp : password = ""
  · simp [named, hu, hp, AuthResult.failure]
  rw [named_some hu, named_some hp]
  dsimp only
  cases hinst : L.installed with
  | false => simp [AuthResult.failure]
  | true =>
    simp only [Bool.not_true, Bool.false_eq_true, ↓reduceIte, ne_eq, hu, not_false_eq_true, hp,
      true_and]
    constructor
    · intro h
      split at h
      · cases h
      · cases h
      · rename_i entry hfound
        split at h
        · cases h
        · rename_i hbound
          split at h
          · rename_i hgroup
            exact ⟨entry, hfound, hbound, hgroup⟩
          · cases h
    · rintro ⟨entry, hfound, hbound, hgroup⟩
      rw [hfound]
      dsimp only
      rw [hbound]
      dsimp only
      rw [if_pos hgroup]

/-- The identity is the name that was given, not the name of the entry. -/
theorem identity_of_success {L : Ldap3} {a : LDAPAuthenticator} {username password : String}
    (h : (a.authenticate L { username := some username, password := some password }).success =
      true) :
    (a.authenticate L { username := some username, password := some password }).identity =
      some username := by
  obtain ⟨hinst, hu, hp, entry, hfound, hbound, hgroup⟩ := (succeeded_iff L a _ _).mp h
  simp [authenticate, named_some hu, named_some hp, hinst, hfound, hbound, hgroup]

/-- The entry that is bound is in the directory, and the filter selects it. -/
theorem selected_of_found {L : Ldap3} {a : LDAPAuthenticator} {username : String} {entry : Entry}
    (h : a.userEntry L username = .ok (some entry)) :
    entry ∈ L.directory.entries ∧ ∃ f, Filter.ofString (a.userFilter.format username) = some f ∧
      f.eval L.directory.schema entry = some true := by
  unfold userEntry at h
  cases hbind : L.bind a.options a.service with
  | error e =>
    rw [hbind] at h
    cases h
  | ok _ =>
    cases hsearch : L.search a.options a.service a.baseDn (a.userFilter.format username) with
    | error e =>
      rw [hbind, hsearch] at h
      cases h
    | ok found =>
      rw [hbind, hsearch] at h
      have hhead : found.head? = some entry := Except.ok.inj h
      obtain ⟨f, hf, hall⟩ := L.selected hsearch
      obtain ⟨hin, hsel⟩ := hall entry (List.mem_of_head? hhead)
      exact ⟨hin, f, hf, hsel⟩

end LDAPAuthenticator

/-! ## The default filter -/

/-- **The name stays a value.** -/
theorem ofString_default (username : String) :
    Filter.ofString (UserFilter.default.format username) =
      (components username.toList).map (.ofPieces "uid") := by
  have hname : isDescription ['u', 'i', 'd'] = true := by decide
  have hchars : ∀ c ∈ ['u', 'i', 'd'], isDescriptionChar c = true :=
    List.all_eq_true.mp (by decide)
  have huid : String.ofList ['u', 'i', 'd'] = "uid" := by decide
  have hitem := @ofString_item ['u', 'i', 'd'] username.toList hname hchars
  rw [huid] at hitem
  exact hitem

/-- The name is the inside of a filter: no `(`, `)`, NUL or broken escape, and its
pieces are texts. -/
def Readable (username : String) : Prop :=
  ∃ p, components username.toList = some p ∧ (decodePieces p).isSome = true

/-- An entry is only found for a readable name. -/
theorem readable_of_found {L : Ldap3} {a : LDAPAuthenticator} {username : String} {entry : Entry}
    (hdefault : a.userFilter = .default) (h : a.userEntry L username = .ok (some entry)) :
    Readable username := by
  obtain ⟨_, f, hf, hsel⟩ := LDAPAuthenticator.selected_of_found h
  rw [hdefault, ofString_default] at hf
  obtain ⟨p, hp, rfl⟩ := Option.map_eq_some_iff.mp hf
  exact ⟨p, hp, decodePieces_of_eval hsel⟩

/-- **The entry of a plain name is the user's**, as far as the directory can tell. -/
theorem uid_of_found {L : Ldap3} {a : LDAPAuthenticator} {username : String} {entry : Entry}
    (hdefault : a.userFilter = .default) (hplain : Plain username.toList)
    (h : a.userEntry L username = .ok (some entry)) :
    L.directory.schema.knows "uid" = true ∧
      ∃ v ∈ entry.values "uid", L.directory.schema.Same "uid" v username := by
  obtain ⟨_, f, hf, hsel⟩ := LDAPAuthenticator.selected_of_found h
  rw [hdefault, ofString_default] at hf
  obtain ⟨p, hp, rfl⟩ := Option.map_eq_some_iff.mp hf
  rw [components_plain hplain hp, ← encode_eq_utf8] at hsel
  exact eval_equal.mp hsel

/-- For a readable name the filter selects the entries with a certain `uid`, which is
another than the name unless the name is plain. -/
theorem exists_selected {username : String} (h : Readable username) :
    ∃ uid, (uid = username → Plain username.toList) ∧ ∀ e : Entry, uid ∈ e.values "uid" →
      ∃ f, Filter.ofString (UserFilter.default.format username) = some f ∧
        f.eval .exact e = some true := by
  obtain ⟨p, hp, hsome⟩ := h
  obtain ⟨⟨first, rest⟩, hpieces⟩ := Option.isSome_iff_exists.mp hsome
  refine ⟨String.ofList (join 'x' first.toList (rest.map String.toList)), ?_, ?_⟩
  · rintro rfl
    rw [String.toList_ofList] at hp ⊢
    have hfiller : String.utf8EncodeChar 'x' = [120] := by decide
    exact join_components_eq (by decide) hp (utf8_join_decoded hpieces hfiller).symm
  · intro e he
    refine ⟨.ofPieces "uid" p, ?_, eval_join hpieces 'x' he⟩
    rw [ofString_default, hp]
    rfl

/-! ## When the named user is who was checked -/

/-- A success is one of the named user: the entry that was bound has the returned identity for
a `uid`, and it is in the required group. -/
def NamedUserChecked (L : Ldap3) (a : LDAPAuthenticator) (username password : String) : Prop :=
  let result := a.authenticate L { username := some username, password := some password }
  result.success = true → ∃ entry identity, a.userEntry L username = .ok (some entry) ∧
    L.bind a.options (some (entry.dn, password)) = .ok () ∧ result.identity = some identity ∧
    identity ∈ entry.values "uid" ∧
    ∀ group, named a.requiredGroup = some group → group ∈ entry.values "memberOf"

/-- Where values are compared by one of the rules, no other `uid` is taken for the name. -/
def ToldApart (rules : Schema → Prop) (username : String) : Prop :=
  ∀ S, rules S → S.knows "uid" = true → ∀ v, S.Same "uid" v username → v = username

/-- What has to be known of a name and of a list of groups that passes for the required one. -/
def NameAndGroups (rules : Schema → Prop) (username : String) (requiredGroup : Option String)
    (groups : List String) : Prop :=
  Plain username.toList ∧ ToldApart rules username ∧
    ∀ group, named requiredGroup = some group → group ∈ groups

/-- A user and the groups it is in. -/
def user (uid : String) (groups : List String) : Entry where
  dn := "cn=user"
  values attr := if attr = "uid" then [uid] else if attr = "memberOf" then groups else []

/-- A directory with one user. -/
def oneUser (S : Schema) (uid : String) (groups : List String) : Directory where
  schema := S
  entries := [user uid groups]

theorem uniqueUid_oneUser (S : Schema) (uid : String) (groups : List String) :
    (oneUser S uid groups).UniqueUid := List.pairwise_singleton _ _

def sampleAuthenticator (requiredGroup : Option String) : LDAPAuthenticator where
  server := "ldap://localhost"
  baseDn := "dc=example"
  requiredGroup := requiredGroup

/-- The only user is found when the filter selects it. -/
theorem userEntry_oneUser {S : Schema} {uid username : String} {groups : List String}
    (requiredGroup : Option String) (passwords : String → String → Bool) {f : Filter}
    (hf : Filter.ofString (UserFilter.default.format username) = some f)
    (hsel : f.eval S (user uid groups) = some true) :
    (sampleAuthenticator requiredGroup).userEntry
      (.ofDirectory (oneUser S uid groups) passwords) username =
        .ok (some (user uid groups)) := by
  have hsearch : (Ldap3.ofDirectory (oneUser S uid groups) passwords).search
      (sampleAuthenticator requiredGroup).options none "dc=example"
      (UserFilter.default.format username) = .ok [user uid groups] := by
    simp [Ldap3.ofDirectory, oneUser, hf, hsel]
  unfold LDAPAuthenticator.userEntry
  have hbind : (Ldap3.ofDirectory (oneUser S uid groups) passwords).bind
      (sampleAuthenticator requiredGroup).options none = .ok () := rfl
  have hservice : (sampleAuthenticator requiredGroup).service = none := rfl
  have hbase : (sampleAuthenticator requiredGroup).baseDn = "dc=example" := rfl
  have hfilter : (sampleAuthenticator requiredGroup).userFilter = .default := rfl
  rw [hservice, hbase, hfilter, hbind]
  dsimp only [bind, Except.bind]
  rw [hsearch]
  rfl

/-- The only user is bound as whoever asks, when the filter selects it and its groups pass. -/
theorem checked_oneUser {S : Schema} {uid username password : String} {groups : List String}
    {requiredGroup : Option String} (hu : username ≠ "") (hp : password ≠ "") {f : Filter}
    (hf : Filter.ofString (UserFilter.default.format username) = some f)
    (hsel : f.eval S (user uid groups) = some true)
    (hgroup : inRequiredGroup requiredGroup groups = true)
    (h : NamedUserChecked (.ofDirectory (oneUser S uid groups) fun _ _ => true)
      (sampleAuthenticator requiredGroup) username password) :
    uid = username ∧ ∀ group, named requiredGroup = some group → group ∈ groups := by
  have hfound := userEntry_oneUser requiredGroup (fun _ _ => true) hf hsel
  have hok := (LDAPAuthenticator.succeeded_iff _ _ username password).mpr
    ⟨rfl, hu, hp, user uid groups, hfound, rfl, hgroup⟩
  obtain ⟨entry, identity, hentry, _, hidentity, huid, hmember⟩ := h hok
  rw [LDAPAuthenticator.identity_of_success hok] at hidentity
  cases hidentity
  rw [hfound] at hentry
  cases hentry
  exact ⟨(List.mem_singleton.mp huid).symm, hmember⟩

/-- A plain name selects whatever the directory does not tell from it. -/
theorem selected_of_same {S : Schema} {username uid : String} {groups : List String}
    (hread : Readable username) (hplain : Plain username.toList) (hknows : S.knows "uid" = true)
    (hsame : S.Same "uid" uid username) :
    ∃ f, Filter.ofString (UserFilter.default.format username) = some f ∧
      f.eval S (user uid groups) = some true := by
  obtain ⟨p, hp, -⟩ := hread
  rw [ofString_default, hp]
  refine ⟨_, rfl, ?_⟩
  rw [components_plain hplain hp, ← encode_eq_utf8]
  exact eval_equal.mpr ⟨hknows, uid, List.mem_singleton.mpr rfl, hsame⟩

/-- **The named user is who was checked**, in every directory that compares values as they are or
by one of `rules` and whose entries have group lists in `G`, exactly when authentication fails
anyway (no name, no password, or a name that makes no filter) or, for every list that passes for
the required group, the name is plain, no other `uid` is taken for it, and the required group is
in the list. -/
theorem named_user_iff (username password : String) (requiredGroup : Option String)
    (rules : Schema → Prop) (G : List String → Prop) :
    (∀ (L : Ldap3) (a : LDAPAuthenticator), a.userFilter = .default →
      a.requiredGroup = requiredGroup → L.directory.UniqueUid →
      (L.directory.schema = .exact ∨ rules L.directory.schema) →
      (∀ e ∈ L.directory.entries, G (e.values "memberOf")) →
      NamedUserChecked L a username password) ↔
    username = "" ∨ password = "" ∨ ¬ Readable username ∨
      ∀ groups, G groups → inRequiredGroup requiredGroup groups = true →
        NameAndGroups rules username requiredGroup groups := by
  constructor
  · intro h
    by_cases hu : username = ""
    · exact .inl hu
    by_cases hp : password = ""
    · exact .inr (.inl hp)
    by_cases hread : Readable username
    swap
    · exact .inr (.inr (.inl hread))
    refine .inr (.inr (.inr fun groups hG hgroup => ?_))
    have hone : ∀ S uid, (S = .exact ∨ rules S) → NamedUserChecked
        (.ofDirectory (oneUser S uid groups) fun _ _ => true)
        (sampleAuthenticator requiredGroup) username password := by
      intro S uid hS
      refine h _ _ rfl rfl (uniqueUid_oneUser S uid groups) hS fun e he => ?_
      cases List.mem_singleton.mp he
      exact hG
    obtain ⟨uid, hplain, hsel⟩ := exists_selected hread
    obtain ⟨f, hf, htrue⟩ := hsel (user uid groups) (List.mem_singleton.mpr rfl)
    have hexact := checked_oneUser hu hp hf htrue hgroup (hone .exact uid (.inl rfl))
    have hname := hplain hexact.1
    refine ⟨hname, ?_, hexact.2⟩
    intro S hS hknows v hsame
    obtain ⟨g, hg, hselected⟩ : ∃ g, Filter.ofString (UserFilter.default.format username) = some g ∧
        g.eval S (user v groups) = some true := selected_of_same hread hname hknows hsame
    exact (checked_oneUser hu hp hg hselected hgroup (hone S v (.inr hS))).1
  · intro h L a hdefault hrequired _ hschema hG hok
    obtain ⟨_, hu, hp, entry, hfound, hbound, hgroup⟩ :=
      (LDAPAuthenticator.succeeded_iff L a username password).mp hok
    have hread := readable_of_found hdefault hfound
    have hin := (LDAPAuthenticator.selected_of_found hfound).1
    have hboth : NameAndGroups rules username requiredGroup (entry.values "memberOf") := by
      rcases h with h | h | h | h
      · exact absurd h hu
      · exact absurd h hp
      · exact absurd hread h
      · exact h _ (hG entry hin) (hrequired ▸ hgroup)
    obtain ⟨hplain, hapart, hmember⟩ := hboth
    obtain ⟨hknows, v, hv, hsame⟩ := uid_of_found hdefault hplain hfound
    have huid : v = username := by
      rcases hschema with hexact | hrules
      · rw [hexact] at hsame
        exact hsame
      · exact hapart _ hrules hknows v hsame
    refine ⟨entry, username, hfound, hbound, LDAPAuthenticator.identity_of_success hok,
      huid ▸ hv, ?_⟩
    rw [hrequired]
    exact hmember

/-- **Somebody else is bound.** The name `al*` and alice's password succeed as `al*`, and the
group `not-admins` passes for `admins`. -/
theorem wildcard_bound :
    ∃ (L : Ldap3) (a : LDAPAuthenticator), a.userFilter = .default ∧
      a.requiredGroup = some "admins" ∧ L.directory.UniqueUid ∧
      (a.authenticate L { username := some "al*", password := some "secret" }).identity =
        some "al*" ∧
      L.directory.entries.map (fun e => (e.values "uid", e.values "memberOf")) =
        [(["alice"], ["not-admins"])] ∧
      ¬ NamedUserChecked L a "al*" "secret" := by
  have hfound : (sampleAuthenticator (some "admins")).userEntry
      (.ofDirectory (oneUser .exact "alice" ["not-admins"]) fun _ password => password = "secret")
      "al*" = .ok (some (user "alice" ["not-admins"])) := by
    refine userEntry_oneUser _ _ (f := .ofPieces "uid" ([97, 108], [[]])) ?_ (by decide +kernel)
    rw [ofString_default, show components "al*".toList = some ([97, 108], [[]]) by decide +kernel]
    rfl
  have hok := (LDAPAuthenticator.succeeded_iff _ _ "al*" "secret").mpr
    ⟨rfl, by decide, by decide, _, hfound, rfl, by decide +kernel⟩
  refine ⟨_, _, rfl, rfl, uniqueUid_oneUser _ _ _, LDAPAuthenticator.identity_of_success hok, rfl,
    fun h => ?_⟩
  obtain ⟨entry, identity, hentry, _, _, _, hmember⟩ := h hok
  rw [hfound] at hentry
  cases hentry
  exact absurd (hmember "admins" rfl) (by decide)

end Wormhole.L4.Enterprise
