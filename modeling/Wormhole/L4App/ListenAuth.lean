import Wormhole.L4App.LdapAuth

/-!
# Authentication of `wh listen --ssh`

From the command line to the session: `create_authenticator` of
`src/wh/enterprise/auth.py`, the set-up in `src/wh/cli/listen.py`, and the callbacks of
`src/wh/ssh/server.py` that `asyncssh` asks about each attempt of a client. Audit
logging, verbosity and the messages on the terminal are left out; the wormhole is given
by how opening and dilating it end.

* `enforced_iff`: a session is granted only to those the authenticator accepts exactly
  when the invocation never comes to start the server.
* `password_granted`: the server of `wh listen --ssh` takes every password of every user.
* `publicKey_refused`: it takes no key.
-/
namespace Wormhole.L4.Enterprise
open Wormhole.L1 Wormhole.L1.Ldap Wormhole.L4.Wns

/-! ## Authenticators by method -/

/-- The machine and the libraries an authenticator works with. -/
structure Environment where
  crypto : Crypto
  bcrypt : Bcrypt
  ldap3 : Ldap3
  files : String → Option (List String)
  urandom : Challenge

inductive Authenticator
  | none
  | pubkey (a : PubkeyAuthenticator)
  | password (a : PasswordAuthenticator)
  | ldap (a : LDAPAuthenticator)

/-- Everybody is let in as `anonymous`.
mirrors src/wh/enterprise/auth.py:104-110 -/
def noAuthentication : AuthResult where
  success := true
  identity := some "anonymous"
  metadata := [("method", "none")]

def Authenticator.authenticate (E : Environment) : Authenticator → Credentials → AuthResult
  | .none, _ => noAuthentication
  | .pubkey a, credentials => a.authenticate E.crypto credentials
  | .password a, credentials => a.authenticate E.bcrypt credentials
  | .ldap a, credentials => a.authenticate E.ldap3 credentials

/-- The options of `create_authenticator`. -/
structure AuthOptions where
  authorizedKeys : Option String := none
  passwordFile : Option String := none
  ldapServer : Option String := none
  ldapBaseDn : Option String := none
  ldapBindDn : Option String := none
  ldapBindPassword : Option String := none
  ldapUserFilter : UserFilter := .default
  ldapGroupFilter : Option String := none
  ldapRequiredGroup : Option String := none
  ldapUseTls : Bool := true
  ldapTimeout : ℚ := 10

/-- mirrors src/wh/enterprise/auth.py:490-545 -/
def createAuthenticator (E : Environment) (method : AuthMethod) (o : AuthOptions) :
    Except String Authenticator :=
  match method with
  | .none => .ok .none
  | .pubkey =>
    match named o.authorizedKeys with
    | none => .error "authorized_keys path required for pubkey auth"
    | some path => .ok (.pubkey (.init (E.files path) E.urandom))
  | .password =>
    match named o.passwordFile with
    | none => .error "password_file path required for password auth"
    | some path => .ok (.password (.init (E.files path)))
  | .ldap =>
    match named o.ldapServer, named o.ldapBaseDn with
    | some server, some baseDn =>
      .ok (.ldap
        { server := server, baseDn := baseDn, bindDn := o.ldapBindDn,
          bindPassword := o.ldapBindPassword, userFilter := o.ldapUserFilter,
          groupFilter := o.ldapGroupFilter, requiredGroup := o.ldapRequiredGroup,
          useTls := o.ldapUseTls, timeout := o.ldapTimeout })
    | _, _ => .error "ldap_server and ldap_base_dn required for LDAP auth"

/-! ## The SSH server -/

/-- `SSHServerHandler`, as far as its servers read it.
mirrors src/wh/ssh/server.py:66-82 -/
structure SSHServerHandler where
  authorizedKeys : Option String := none
  passwords : Option (Dict String String) := none

/-- mirrors src/wh/ssh/server.py:27-34 -/
structure WormholeSSHServer where
  authorizedKeysPath : Option String
  passwords : Dict String String

/-- The server of one connection.
mirrors src/wh/ssh/server.py:95-99 -/
def SSHServerHandler.server (handler : SSHServerHandler) : WormholeSSHServer where
  authorizedKeysPath := handler.authorizedKeys
  passwords := handler.passwords.getD .empty

/-- What `asyncssh` does itself: reading a file of authorized keys, which raises where there is
none, and checking that a client has the key it offers. -/
structure Asyncssh where
  readAuthorizedKeys : String → Option (Bytes → String → Bool)
  ownsKey : Bytes → Bytes → Bool

namespace WormholeSSHServer

/-- mirrors src/wh/ssh/server.py:39-40 -/
def beginAuth (_ : WormholeSSHServer) (_username : String) : Bool := true

/-- mirrors src/wh/ssh/server.py:42-43 -/
def passwordAuthSupported (_ : WormholeSSHServer) : Bool := true

/-- A user without a password of its own has any.
mirrors src/wh/ssh/server.py:45-48 -/
def validatePassword (s : WormholeSSHServer) (username password : String) : Bool :=
  match s.passwords.get? username with
  | some expected => expected = password
  | none => true

/-- mirrors src/wh/ssh/server.py:50-51 -/
def publicKeyAuthSupported (s : WormholeSSHServer) : Bool := s.authorizedKeysPath.isSome

/-- mirrors src/wh/ssh/server.py:53-60 -/
def validatePublicKey (S : Asyncssh) (s : WormholeSSHServer) (username : String) (key : Bytes) :
    Bool :=
  match (named s.authorizedKeysPath).bind S.readAuthorizedKeys with
  | some validate => validate key username
  | none => false

end WormholeSSHServer

/-- One attempt of a client. With the keyboard the client is asked for the password. -/
inductive Attempt
  | nothing (username : String)
  | password (username password : String)
  | keyboardInteractive (username password : String)
  | publicKey (username : String) (key signature : Bytes)

/-- What an attempt brings along. -/
def Attempt.credentials : Attempt → Credentials
  | .nothing username => { username := some username }
  | .password username pass | .keyboardInteractive username pass =>
    { username := some username, password := some pass }
  | .publicKey username key signature =>
    { username := some username
      publicKey := some (String.ofList (Base64.b64encode key))
      signature := some (String.ofList (Base64.b64encode signature)) }

/-- Whether `asyncssh` takes an attempt, by what the callbacks answer. -/
def WormholeSSHServer.accepts (S : Asyncssh) (s : WormholeSSHServer) : Attempt → Bool
  | .nothing username => !s.beginAuth username
  | .password username password | .keyboardInteractive username password =>
    s.passwordAuthSupported && s.validatePassword username password
  | .publicKey username key signature =>
    s.publicKeyAuthSupported && S.ownsKey key signature && s.validatePublicKey S username key

/-- The attempt that the session is granted for: the first that is taken. -/
def WormholeSSHServer.session (S : Asyncssh) (s : WormholeSSHServer) (attempts : List Attempt) :
    Option Attempt :=
  attempts.find? (s.accepts S)

/-! ## The command -/

/-- An invocation of `wh listen`. -/
structure Invocation where
  port : Option Int := none
  ssh : Bool := false
  http : Bool := false
  serve : Option String := none
  dilate : Bool := true
  authMethod : AuthMethod := .none
  authorizedKeys : Option String := none
  ldapServer : Option String := none
  ldapBaseDn : Option String := none

/-- How the steps of the wormhole end; an error is what was raised. -/
structure Opened where
  create : Except String Unit
  dilate : Except String Unit
  verify : Except String Unit

inductive Service
  | fileServer (directory : String)
  | sshServer (handler : SSHServerHandler)
  | httpProxy
  | forward (port : Int)
  | waiting

/-- The authenticator that the options ask for.
mirrors src/wh/cli/listen.py:147-170 -/
def configureAuthentication (E : Environment) (i : Invocation) :
    Except String (Option Authenticator) :=
  match i.authMethod with
  | .none => .ok none
  | .pubkey =>
    match named i.authorizedKeys with
    | none => .error "--authorized-keys required for pubkey auth"
    | some path => (createAuthenticator E .pubkey { authorizedKeys := some path }).map some
  | .ldap =>
    match named i.ldapServer, named i.ldapBaseDn with
    | some server, some baseDn =>
      (createAuthenticator E .ldap
        { ldapServer := some server, ldapBaseDn := some baseDn }).map some
    | _, _ => .error "--ldap-server and --ldap-base-dn required for ldap auth"
  | .password => .error "Password auth requires --password-file (not yet implemented in CLI)"

/-- The service that runs in the end. The authenticator is made, and nothing keeps it.
mirrors src/wh/cli/listen.py:141-253 -/
def listen (E : Environment) (w : Opened) (i : Invocation) : Except String Service := do
  let _ ← configureAuthentication E i
  w.create
  match named i.serve, i.ssh, i.http, i.port.filter (· ≠ 0) with
  | some directory, _, _, _ =>
    -- a dilation that fails falls back to messages
    if i.dilate then return .fileServer directory
    w.verify
    return .fileServer directory
  | none, true, _, _ =>
    w.dilate
    return .sshServer {}
  | none, false, true, _ =>
    w.dilate
    return .httpProxy
  | none, false, false, some port =>
    w.dilate
    return .forward port
  | none, false, false, none => return .waiting

/-! ## What the server grants -/

/-- **Any password will do**, whatever method was chosen. -/
theorem password_granted (S : Asyncssh) (username password : String) (attempts : List Attempt) :
    (SSHServerHandler.server {}).session S (.password username password :: attempts) =
      some (.password username password) := by
  rfl

/-- **No key will do**: the server was not told where the authorized keys are. -/
theorem publicKey_refused (S : Asyncssh) (username : String) (key signature : Bytes) :
    (SSHServerHandler.server {}).accepts S (.publicKey username key signature) = false := by
  rfl

/-- The options of the chosen method are there. -/
def OptionsGiven (i : Invocation) : Prop :=
  match i.authMethod with
  | .none => True
  | .pubkey => (named i.authorizedKeys).isSome = true
  | .ldap => (named i.ldapServer).isSome = true ∧ (named i.ldapBaseDn).isSome = true
  | .password => False

/-- The invocation comes to start the SSH server: its options are complete, it serves no
files, and the wormhole is opened and dilated. -/
def StartsServer (w : Opened) (i : Invocation) : Prop :=
  OptionsGiven i ∧ w.create = .ok () ∧ named i.serve = none ∧ i.ssh = true ∧ w.dilate = .ok ()

/-- The two authenticators that `wh listen` makes. -/
inductive Configured (i : Invocation) : Authenticator → Prop
  | pubkey (a : PubkeyAuthenticator) (h : i.authMethod = .pubkey) : Configured i (.pubkey a)
  | ldap (a : LDAPAuthenticator) (h : i.authMethod = .ldap) : Configured i (.ldap a)

theorem configureAuthentication_ok (E : Environment) (i : Invocation) :
    (∃ a, configureAuthentication E i = .ok a) ↔ OptionsGiven i := by
  unfold configureAuthentication OptionsGiven createAuthenticator
  cases i.authMethod with
  | none => simp
  | password => simp
  | pubkey =>
    cases hkeys : named i.authorizedKeys with
    | none => simp
    | some path => simp [named_some (ne_of_named hkeys), Except.map]
  | ldap =>
    cases hserver : named i.ldapServer with
    | none => simp
    | some server =>
      cases hbase : named i.ldapBaseDn with
      | none => simp
      | some baseDn =>
        simp [named_some (ne_of_named hserver), named_some (ne_of_named hbase), Except.map]

theorem configured {E : Environment} {i : Invocation} {a : Authenticator}
    (h : configureAuthentication E i = .ok (some a)) : Configured i a := by
  unfold configureAuthentication createAuthenticator at h
  split at h
  · cases h
  · rename_i hmethod
    split at h
    · cases h
    · rename_i path hkeys
      dsimp only at h
      rw [named_some (ne_of_named hkeys)] at h
      cases h
      exact .pubkey _ hmethod
  · rename_i hmethod
    split at h
    · rename_i server baseDn hserver hbase
      dsimp only at h
      rw [named_some (ne_of_named hserver), named_some (ne_of_named hbase)] at h
      cases h
      exact .ldap _ hmethod
    · cases h
  · cases h

/-- Without an authenticator no method was chosen. -/
theorem authMethod_of_none {E : Environment} {i : Invocation}
    (h : configureAuthentication E i = .ok none) : i.authMethod = .none := by
  unfold configureAuthentication at h
  split at h
  · assumption
  · split at h
    · cases h
    · cases hc : createAuthenticator E .pubkey _ <;> rw [hc] at h <;> cases h
  · split at h
    · cases hc : createAuthenticator E .ldap _ <;> rw [hc] at h <;> cases h
    · cases h
  · cases h

/-- Neither of them takes an empty password. -/
theorem empty_password_refused {E : Environment} {i : Invocation} {a : Authenticator}
    (h : Configured i a) (username : String) :
    (a.authenticate E { username := some username, password := some "" }).success = false := by
  cases h with
  | pubkey a _ => rfl
  | ldap a _ =>
    by_contra hok
    rw [Bool.not_eq_false] at hok
    exact ((LDAPAuthenticator.succeeded_iff E.ldap3 a username "").mp hok).2.2.1 rfl

/-- The server is started with what it has by default. -/
theorem listen_ssh_iff (E : Environment) (w : Opened) (i : Invocation)
    (handler : SSHServerHandler) :
    listen E w i = .ok (.sshServer handler) ↔ StartsServer w i ∧ handler = {} := by
  unfold listen StartsServer
  rw [← configureAuthentication_ok E i]
  cases configureAuthentication E i with
  | error e => simp [bind, Except.bind]
  | ok a =>
    cases w.create with
    | error e => simp [bind, Except.bind]
    | ok _ =>
      cases hserve : named i.serve with
      | some directory =>
        cases i.dilate <;> cases w.verify <;> simp [bind, Except.bind, pure, Except.pure]
      | none =>
        cases i.ssh with
        | true => cases w.dilate <;> simp [bind, Except.bind, pure, Except.pure, eq_comm]
        | false =>
          cases i.http <;> cases i.port.filter (· ≠ 0) <;> cases w.dilate <;>
            simp [bind, Except.bind, pure, Except.pure]

/-! ## When the chosen method is enforced -/

/-- Whenever the server runs, a session is granted only for an attempt whose credentials the
configured authenticator accepts. -/
def Enforced (E : Environment) (S : Asyncssh) (w : Opened) (i : Invocation) : Prop :=
  ∀ handler authenticator, listen E w i = .ok (.sshServer handler) →
    configureAuthentication E i = .ok (some authenticator) →
    ∀ attempts attempt, handler.server.session S attempts = some attempt →
      (authenticator.authenticate E attempt.credentials).success = true

/-- **The chosen method is enforced exactly when the server is not started**: when an option
of the method is missing, files are served instead, or the wormhole does not come about. -/
theorem enforced_iff (E : Environment) (S : Asyncssh) (w : Opened) (i : Invocation)
    (hmethod : i.authMethod = .pubkey ∨ i.authMethod = .ldap) (hssh : i.ssh = true) :
    Enforced E S w i ↔
      ¬ (OptionsGiven i ∧ named i.serve = none ∧ w.create = .ok () ∧ w.dilate = .ok ()) := by
  constructor
  · rintro h ⟨hgiven, hserve, hcreate, hdilate⟩
    have hlisten := (listen_ssh_iff E w i {}).mpr ⟨⟨hgiven, hcreate, hserve, hssh, hdilate⟩, rfl⟩
    obtain ⟨configuration, hconf⟩ := (configureAuthentication_ok E i).mpr hgiven
    cases configuration with
    | none =>
      rw [authMethod_of_none hconf] at hmethod
      rcases hmethod with hm | hm <;> cases hm
    | some authenticator =>
      -- the server takes the empty password, the authenticator does not
      have hok := h {} authenticator hlisten hconf [.password "root" ""] _
        (password_granted S "root" "" [])
      rw [Attempt.credentials, empty_password_refused (configured hconf) "root"] at hok
      cases hok
  · intro hnot handler authenticator hlisten
    obtain ⟨hgiven, hcreate, hserve, _, hdilate⟩ := ((listen_ssh_iff E w i handler).mp hlisten).1
    exact absurd ⟨hgiven, hserve, hcreate, hdilate⟩ hnot

/-! ## Sessions nobody authenticated -/

/-- A machine with one authorized key and a directory with one user. -/
def sampleEnvironment : Environment where
  crypto := .sample
  bcrypt := .missing
  ldap3 := .ofDirectory (oneUser .exact "alice" []) fun _ password => password = "secret"
  files path := if path = "authorized_keys" then some ["AAAA alice"] else none
  urandom := ⟨List.replicate 32 0, List.length_replicate⟩

def sampleAsyncssh : Asyncssh where
  readAuthorizedKeys _ := none
  ownsKey _ _ := false

def sampleOpened : Opened := ⟨.ok (), .ok (), .ok ()⟩

/-- `wh listen --ssh --auth-method=pubkey --authorized-keys=authorized_keys` -/
def pubkeyInvocation : Invocation where
  ssh := true
  authMethod := .pubkey
  authorizedKeys := some "authorized_keys"

/-- `wh listen --ssh --auth-method=ldap --ldap-server=... --ldap-base-dn=...` -/
def ldapInvocation : Invocation where
  ssh := true
  authMethod := .ldap
  ldapServer := some "ldap://localhost"
  ldapBaseDn := some "dc=example"

/-- Without `--authorized-keys` there is no server, and nobody gets a session. -/
theorem enforced_withoutKeys :
    Enforced sampleEnvironment sampleAsyncssh sampleOpened
      { pubkeyInvocation with authorizedKeys := none } :=
  (enforced_iff _ _ _ _ (.inl rfl) rfl).mpr fun h => Bool.false_ne_true h.1

/-- **A guess grants a session.** With either method, root and a guessed password are let in,
and the authenticator that was configured refuses them. -/
theorem guess_granted :
    ∃ E S w, ∀ i ∈ [pubkeyInvocation, ldapInvocation], ¬ Enforced E S w i ∧
      ∃ handler authenticator, listen E w i = .ok (.sshServer handler) ∧
        configureAuthentication E i = .ok (some authenticator) ∧
        handler.server.session S [.password "root" "guess"] = some (.password "root" "guess") ∧
        (authenticator.authenticate E (Attempt.password "root" "guess").credentials).success =
          false := by
  refine ⟨sampleEnvironment, sampleAsyncssh, sampleOpened, fun i hi => ?_⟩
  have hgranted : ∃ handler authenticator,
      listen sampleEnvironment sampleOpened i = .ok (.sshServer handler) ∧
      configureAuthentication sampleEnvironment i = .ok (some authenticator) ∧
      handler.server.session sampleAsyncssh [.password "root" "guess"] =
        some (.password "root" "guess") ∧
      (authenticator.authenticate sampleEnvironment
        (Attempt.password "root" "guess").credentials).success = false := by
    simp only [List.mem_cons, List.not_mem_nil, or_false] at hi
    rcases hi with rfl | rfl
    · exact ⟨{}, _, rfl, rfl, rfl, rfl⟩
    · exact ⟨{}, _, rfl, rfl, rfl, by decide +kernel⟩
  refine ⟨fun h => ?_, hgranted⟩
  obtain ⟨handler, authenticator, hlisten, hconf, hsession, hrefused⟩ := hgranted
  have hok := h handler authenticator hlisten hconf _ _ hsession
  rw [hrefused] at hok
  cases hok

end Wormhole.L4.Enterprise
