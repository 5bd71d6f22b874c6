import Wormhole.L1Encoding.PyBytes

/-!
# Which hosts are wormhole names

Two web server integrations look at the `Host` of a request to see whether it is
for a wormhole peer, and take the name out of it: `is_wormhole_request` of
`src/integrations/nginx-native/ngx_http_wormhole_module.c`, and
`isWormholeRequest` with `extractWNSName` of
`src/integrations/traefik-native/wormhole.go`. A host is a byte string. The first
tests the suffix before it cuts the port off, without regard to case; the second
cuts first, and tells upper case from lower.

`agrees_iff`: the hosts on which the two agree; `port_not_detected`: a host with
a port is none of them.
-/
namespace Wormhole.L4.HostDetection
open Wormhole.L1

def colon : UInt8 := 0x3a
def slash : UInt8 := 0x2f

def whPrefix : Bytes := [0x77, 0x68, 0x3a, 0x2f, 0x2f]   -- wh://
def dotWns : Bytes := [0x2e, 0x77, 0x6e, 0x73]           -- .wns
def dotWormhole : Bytes := encode ".wormhole"
def nameHeader : Bytes := encode "X-Wormhole-Name"

/-- An ASCII letter in lower case, any other byte as it is. -/
def toLower (b : UInt8) : UInt8 := if 65 ≤ b.toNat ∧ b.toNat ≤ 90 then b + 32 else b

/-- `s[:i]` for the first `i` with `s[i] = b`; all of `s` where there is none. -/
def beforeFirst (b : UInt8) (s : Bytes) : Bytes := s.takeWhile (· ≠ b)

/-- The same for the last. -/
def beforeLast (b : UInt8) (s : Bytes) : Bytes :=
  if b ∈ s then (s.rdropWhile (· ≠ b)).dropLast else s

/-! ## nginx -/

/-- `ngx_strncasecmp` of nginx: zero when the first `n` bytes differ in no more than
the case of letters. -/
structure Ngx where
  strncasecmp : Bytes → Bytes → Nat → Int
  zero_iff : ∀ s t n, n ≤ s.length → n ≤ t.length → 0 ∉ t →
    (strncasecmp s t n = 0 ↔ (s.take n).map toLower = (t.take n).map toLower)

namespace Nginx

variable (ngx : Ngx)

def isNameHeader (h : Bytes × Bytes) : Bool :=
  h.1.length = 15 && ngx.strncasecmp h.1 nameHeader 15 = 0

/-- `len > n && ngx_strncasecmp(host + len - n, suffix, n) == 0` -/
def endsIn (host suffix : Bytes) : Bool :=
  suffix.length < host.length &&
    ngx.strncasecmp (host.drop (host.length - suffix.length)) suffix suffix.length = 0

/-- The name where it returns 1.
mirrors src/integrations/nginx-native/ngx_http_wormhole_module.c:188-285 -/
def isWormholeRequest (headers : List (Bytes × Bytes)) (host : Option Bytes) : Option Bytes :=
  match headers.find? (isNameHeader ngx) with
  | some h => some h.2
  | none =>
    match host with
    | none => none
    | some host =>
      if 5 < host.length ∧ ngx.strncasecmp host whPrefix 5 = 0 then
        some (beforeFirst colon (host.drop 5))
      else if endsIn ngx host dotWns then some (beforeFirst colon host)
      else if endsIn ngx host dotWormhole then some (beforeFirst colon host)
      else none

end Nginx

/-! ## Traefik -/

namespace Traefik

/-- mirrors src/integrations/traefik-native/wormhole.go:138-153 -/
def isWormholeRequest (host : Bytes) : Bool :=
  whPrefix.isPrefixOf host || dotWns.isSuffixOf (beforeLast colon host)

/-- mirrors src/integrations/traefik-native/wormhole.go:156-181 -/
def extractWNSName (host : Bytes) : Bytes :=
  if whPrefix.isPrefixOf host then beforeLast colon (beforeFirst slash (host.drop 5))
  else if dotWns.isSuffixOf (beforeLast colon host) then beforeLast colon host
  else []

end Traefik

/-! ## Hosts with a name -/

/-- A host that is a name ending in `.wns`, in any letter case, with an optional port,
or that behind a `wh://` in any letter case. -/
structure WnsHost where
  scheme : Option Bytes
  stem : Bytes
  tld : Bytes
  port : Option Bytes
  scheme_eq : ∀ s ∈ scheme, s.map toLower = whPrefix
  stem_noColon : colon ∉ stem
  tld_eq : tld.map toLower = dotWns
  port_digits : ∀ p ∈ port, ∀ b ∈ p, 48 ≤ b.toNat ∧ b.toNat ≤ 57

namespace WnsHost

variable (host : WnsHost)

def name : Bytes := host.stem ++ host.tld

def portSuffix : Bytes := (host.port.map fun p => colon :: p).getD []

def bytes : Bytes := host.scheme.getD [] ++ (host.name ++ host.portSuffix)

end WnsHost

/-- Both take the host for a wormhole name, the same one, without a port. -/
def Agrees (ngx : Ngx) (headers : List (Bytes × Bytes)) (host : Bytes) : Prop :=
  ∃ name, Nginx.isWormholeRequest ngx headers (some host) = some name ∧
    Traefik.isWormholeRequest host = true ∧ Traefik.extractWNSName host = name ∧ colon ∉ name

/-! ## Bytes -/

theorem toLower_low {b c : UInt8} (h : toLower b = c) (hc : c.toNat < 97) : b = c := by
  unfold toLower at h
  split at h
  · rename_i hb
    have hadd : (b + 32).toNat = (b.toNat + 32) % 256 := UInt8.toNat_add b 32
    rw [h] at hadd
    omega
  · exact h

theorem toLower_digit {b : UInt8} (h : b.toNat < 65) : toLower b = b := if_neg (by omega)

theorem length_of_map {s t : Bytes} (h : s.map toLower = t) : s.length = t.length := by
  rw [← h, List.length_map]

/-- A byte that is no letter is where it is in any letter case. -/
theorem mem_of_map {b : UInt8} {s t : Bytes} (h : s.map toLower = t) (hb : b.toNat < 65) :
    b ∈ s ↔ b ∈ t := by
  rw [← h, List.mem_map]
  constructor
  · intro hs; exact ⟨b, hs, toLower_digit hb⟩
  · rintro ⟨c, hc, hcb⟩
    rw [← toLower_low hcb (by omega)]
    exact hc

theorem differs {b : UInt8} {s : Bytes} (h : b ∉ s) : ∀ c ∈ s, decide (c ≠ b) = true :=
  fun c hc => decide_eq_true fun e => h (by rw [← e]; exact hc)

theorem beforeFirst_of_notMem {b : UInt8} {s : Bytes} (h : b ∉ s) : beforeFirst b s = s :=
  List.takeWhile_eq_self_iff.mpr (differs h)

theorem beforeFirst_append {b : UInt8} {s t : Bytes} (h : b ∉ s) :
    beforeFirst b (s ++ b :: t) = s := by
  unfold beforeFirst
  rw [List.takeWhile_append_of_pos (differs h), List.takeWhile_cons_of_neg (by simp),
    List.append_nil]

theorem beforeLast_of_notMem {b : UInt8} {s : Bytes} (h : b ∉ s) : beforeLast b s = s := if_neg h

theorem beforeLast_append {b : UInt8} {s t : Bytes} (h : b ∉ t) :
    beforeLast b (s ++ b :: t) = s := by
  have hmem : b ∈ s ++ b :: t := by simp
  have hrev : (s ++ b :: t).reverse = t.reverse ++ b :: s.reverse := by simp
  have hback : b ∉ t.reverse := fun hb => h (List.mem_reverse.mp hb)
  rw [beforeLast, if_pos hmem, List.rdropWhile, hrev,
    List.dropWhile_append_of_pos (differs hback), List.dropWhile_cons_of_neg (by simp)]
  simp

theorem mem_of_mem_beforeLast {b c : UInt8} {s : Bytes} (h : c ∈ beforeLast b s) : c ∈ s := by
  unfold beforeLast at h
  split at h
  · exact (List.rdropWhile_prefix _ _).subset ((List.dropLast_sublist _).subset h)
  · exact h

/-! ## The parts of a host -/

namespace WnsHost

variable (host : WnsHost)

theorem tld_length : host.tld.length = 4 := length_of_map host.tld_eq

theorem colon_notMem_name : colon ∉ host.name := by
  intro h
  rcases List.mem_append.mp h with h | h
  · exact host.stem_noColon h
  · have := (mem_of_map host.tld_eq (by decide)).mp h
    exact absurd this (by decide)

/-- A port is neither a letter nor one of the two separators. -/
theorem port_low {p : Bytes} (hp : host.port = some p) :
    ∀ b ∈ colon :: p, b.toNat < 65 ∧ b ≠ slash := by
  intro b hb
  rcases List.mem_cons.mp hb with rfl | hb
  · decide
  · have hd := host.port_digits p hp b hb
    refine ⟨by omega, ?_⟩
    rintro rfl
    exact absurd hd (by decide)

theorem port_noColon {p : Bytes} (hp : host.port = some p) : colon ∉ p := by
  intro h
  exact absurd (host.port_digits p hp colon h) (by decide)

theorem portSuffix_none (h : host.port = none) : host.portSuffix = [] := by
  rw [portSuffix, h]; rfl

theorem portSuffix_some {p : Bytes} (h : host.port = some p) : host.portSuffix = colon :: p := by
  rw [portSuffix, h]; rfl

/-- The name is what stands before the first colon, and before the last. -/
theorem beforeFirst_name : beforeFirst colon (host.name ++ host.portSuffix) = host.name := by
  cases hp : host.port with
  | none =>
    rw [host.portSuffix_none hp, List.append_nil]
    exact beforeFirst_of_notMem host.colon_notMem_name
  | some p =>
    rw [host.portSuffix_some hp]
    exact beforeFirst_append host.colon_notMem_name

theorem beforeLast_name : beforeLast colon (host.name ++ host.portSuffix) = host.name := by
  cases hp : host.port with
  | none =>
    rw [host.portSuffix_none hp, List.append_nil]
    exact beforeLast_of_notMem host.colon_notMem_name
  | some p =>
    rw [host.portSuffix_some hp]
    exact beforeLast_append (host.port_noColon hp)

end WnsHost

/-! ## What each of them finds -/

theorem wnsHost_length (host : WnsHost) : 4 ≤ host.name.length := by
  rw [WnsHost.name, List.length_append, host.tld_length]
  omega

/-- A host without a scheme has no colon among its first bytes. -/
theorem no_scheme {host : WnsHost} (hs : host.scheme = none) :
    (host.bytes.take 5).map toLower ≠ whPrefix := by
  intro h
  have hthird : ((host.bytes.take 5).map toLower)[2]? = some colon := by rw [h]; rfl
  have hname : host.bytes[2]? = host.name[2]? := by
    have := wnsHost_length host
    rw [WnsHost.bytes, hs, Option.getD_none, List.nil_append, List.getElem?_append_left (by omega)]
  rw [List.getElem?_map, List.getElem?_take_of_lt (by omega), hname,
    Option.map_eq_some_iff] at hthird
  obtain ⟨b, hb, hlow⟩ := hthird
  rw [toLower_low hlow (by decide)] at hb
  exact host.colon_notMem_name (List.mem_of_getElem? hb)

theorem not_isPrefixOf {host : WnsHost} (h : (host.bytes.take 5).map toLower ≠ whPrefix) :
    whPrefix.isPrefixOf host.bytes = false := by
  refine Bool.eq_false_iff.mpr fun hp => h ?_
  have htake : whPrefix = host.bytes.take 5 :=
    List.prefix_iff_eq_take.mp (List.isPrefixOf_iff_prefix.mp hp)
  rw [← htake]
  decide

section Nginx

variable (ngx : Ngx)

theorem endsIn_iff {host suffix : Bytes} (h0 : 0 ∉ suffix) :
    Nginx.endsIn ngx host suffix = true ↔ suffix.length < host.length ∧
      (host.drop (host.length - suffix.length)).map toLower = suffix.map toLower := by
  rw [Nginx.endsIn, Bool.and_eq_true, decide_eq_true_eq, decide_eq_true_eq]
  refine and_congr_right fun hlen => ?_
  have hdrop : (host.drop (host.length - suffix.length)).length = suffix.length := by
    rw [List.length_drop]; omega
  rw [ngx.zero_iff _ _ _ (by omega) (Nat.le_refl _) h0, List.take_length,
    List.take_of_length_le (by omega)]

/-- A host whose last byte is no letter does not end in a letter. -/
theorem endsIn_false {host suffix : Bytes} {z c : UInt8} (h0 : 0 ∉ suffix)
    (hz : host.getLast? = some z) (hlow : z.toNat < 65)
    (hc : (suffix.map toLower).getLast? = some c) (hletter : 97 ≤ c.toNat) :
    Nginx.endsIn ngx host suffix = false := by
  refine Bool.eq_false_iff.mpr fun h => ?_
  obtain ⟨hlen, heq⟩ := (endsIn_iff ngx h0).mp h
  have hne : suffix ≠ [] := by
    rintro rfl
    cases hc
  have hpos := List.length_pos_iff.mpr hne
  rw [← heq, List.getLast?_map, List.getLast?_drop, if_neg (by omega), hz, Option.map_some,
    toLower_digit hlow, Option.some.injEq] at hc
  rw [hc] at hlow
  omega

theorem portSuffix_last {host : WnsHost} {p : Bytes} (hp : host.port = some p) :
    ∃ z, host.bytes.getLast? = some z ∧ z.toNat < 65 := by
  have hlast : host.bytes.getLast? = (colon :: p).getLast? := by
    rw [WnsHost.bytes, host.portSuffix_some hp, List.getLast?_append, List.getLast?_append,
      List.getLast?_cons]
    rfl
  obtain ⟨z, hz⟩ : ∃ z, (colon :: p).getLast? = some z := ⟨_, List.getLast?_cons⟩
  exact ⟨z, hlast.trans hz, (host.port_low hp z (List.mem_of_getLast? hz)).1⟩

variable {headers : List (Bytes × Bytes)}

theorem no_nameHeader (hx : ∀ h ∈ headers, Nginx.isNameHeader ngx h = false) :
    headers.find? (Nginx.isNameHeader ngx) = none :=
  List.find?_eq_none.mpr fun h hh => by rw [hx h hh]; exact Bool.false_ne_true

theorem strncasecmp_whPrefix {host : Bytes} (hlen : 5 < host.length) :
    ngx.strncasecmp host whPrefix 5 = 0 ↔ (host.take 5).map toLower = whPrefix := by
  rw [ngx.zero_iff _ _ _ (by omega) (by decide) (by decide)]
  exact Iff.of_eq rfl

/-- With a scheme nginx takes the name. -/
theorem nginx_scheme (hx : ∀ h ∈ headers, Nginx.isNameHeader ngx h = false) {host : WnsHost}
    {s : Bytes} (hs : host.scheme = some s) :
    Nginx.isWormholeRequest ngx headers (some host.bytes) = some host.name := by
  have hslow : s.map toLower = whPrefix := host.scheme_eq s hs
  have hslen : s.length = 5 := length_of_map hslow
  have hbytes : host.bytes = s ++ (host.name ++ host.portSuffix) := by
    rw [WnsHost.bytes, hs]; rfl
  have hlen : 5 < host.bytes.length := by
    have := wnsHost_length host
    rw [hbytes, List.length_append, List.length_append]
    omega
  have htake : host.bytes.take 5 = s := by rw [hbytes, ← hslen, List.take_left]
  have hdrop : host.bytes.drop 5 = host.name ++ host.portSuffix := by
    rw [hbytes, ← hslen, List.drop_left]
  simp only [Nginx.isWormholeRequest, no_nameHeader ngx hx]
  rw [if_pos ⟨hlen, (strncasecmp_whPrefix ngx hlen).mpr (by rw [htake, hslow])⟩, hdrop,
    host.beforeFirst_name]

/-- Without one the suffix decides. -/
theorem nginx_no_scheme (hx : ∀ h ∈ headers, Nginx.isNameHeader ngx h = false) {host : WnsHost}
    (hs : host.scheme = none) :
    Nginx.isWormholeRequest ngx headers (some host.bytes) =
      if Nginx.endsIn ngx host.bytes dotWns || Nginx.endsIn ngx host.bytes dotWormhole then
        some host.name else none := by
  have hbytes : host.bytes = host.name ++ host.portSuffix := by
    rw [WnsHost.bytes, hs]; rfl
  have hprefix : ¬ (5 < host.bytes.length ∧ ngx.strncasecmp host.bytes whPrefix 5 = 0) :=
    fun h => no_scheme hs ((strncasecmp_whPrefix ngx h.1).mp h.2)
  have hcut : beforeFirst colon host.bytes = host.name := by rw [hbytes, host.beforeFirst_name]
  simp only [Nginx.isWormholeRequest, no_nameHeader ngx hx, if_neg hprefix, hcut]
  cases Nginx.endsIn ngx host.bytes dotWns <;> simp

/-- The last byte of a host with a port belongs to the port. -/
theorem nginx_port (hx : ∀ h ∈ headers, Nginx.isNameHeader ngx h = false) {host : WnsHost}
    (hs : host.scheme = none) {p : Bytes} (hp : host.port = some p) :
    Nginx.isWormholeRequest ngx headers (some host.bytes) = none := by
  obtain ⟨z, hz, hlow⟩ := portSuffix_last hp
  have hwns : Nginx.endsIn ngx host.bytes dotWns = false :=
    endsIn_false ngx (c := 0x73) (by decide) hz hlow (by decide) (by decide)
  have hwormhole : Nginx.endsIn ngx host.bytes dotWormhole = false :=
    endsIn_false ngx (c := 0x65) (by decide) hz hlow (by decide) (by decide)
  rw [nginx_no_scheme ngx hx hs, hwns, hwormhole]
  rfl

theorem nginx_plain (hx : ∀ h ∈ headers, Nginx.isNameHeader ngx h = false) {host : WnsHost}
    (hs : host.scheme = none) (hp : host.port = none) :
    Nginx.isWormholeRequest ngx headers (some host.bytes) =
      if host.stem = [] then none else some host.name := by
  have hbytes : host.bytes = host.stem ++ host.tld := by
    rw [WnsHost.bytes, hs, host.portSuffix_none hp, List.append_nil]; rfl
  have htld := host.tld_length
  have hlen : host.bytes.length = host.stem.length + 4 := by
    rw [hbytes, List.length_append, htld]
  rw [nginx_no_scheme ngx hx hs]
  by_cases hstem : host.stem = []
  · have hfour : host.bytes.length = 4 := by rw [hlen, hstem]; rfl
    have hwns : Nginx.endsIn ngx host.bytes dotWns = false :=
      Bool.eq_false_iff.mpr fun h => by
        have : 4 < host.bytes.length := ((endsIn_iff ngx (by decide)).mp h).1
        omega
    have hwormhole : Nginx.endsIn ngx host.bytes dotWormhole = false :=
      Bool.eq_false_iff.mpr fun h => by
        have : 9 < host.bytes.length := ((endsIn_iff ngx (by decide)).mp h).1
        omega
    rw [hwns, hwormhole, if_pos hstem]
    rfl
  · have hpos := List.length_pos_iff.mpr hstem
    have hwns : Nginx.endsIn ngx host.bytes dotWns = true := by
      refine (endsIn_iff ngx (by decide)).mpr ⟨?_, ?_⟩
      · rw [hlen]; exact Nat.lt_add_of_pos_left hpos
      · have hdrop : host.bytes.length - dotWns.length = host.stem.length := by
          rw [hlen]; exact Nat.add_sub_cancel _ _
        rw [hdrop, hbytes, List.drop_left, host.tld_eq]
        rfl
    rw [hwns, if_neg hstem]
    rfl

end Nginx

theorem isSuffixOf_iff (host : WnsHost) :
    dotWns.isSuffixOf host.name = true ↔ host.tld = dotWns := by
  rw [List.isSuffixOf_iff_suffix]
  constructor
  · intro h
    have htld : host.tld <:+ host.name := List.suffix_append _ _
    have hlen : dotWns.length = host.tld.length := host.tld_length.symm
    exact ((List.suffix_of_suffix_length_le h htld hlen.le).eq_of_length hlen).symm
  · intro h
    rw [← h]
    exact List.suffix_append _ _

/-- Without a scheme Traefik takes a name whose suffix is in lower case. -/
theorem traefik_no_scheme {host : WnsHost} (hs : host.scheme = none) :
    (Traefik.isWormholeRequest host.bytes = true ↔ host.tld = dotWns) ∧
      (host.tld = dotWns → Traefik.extractWNSName host.bytes = host.name) := by
  have hbytes : host.bytes = host.name ++ host.portSuffix := by
    rw [WnsHost.bytes, hs]; rfl
  have hprefix := not_isPrefixOf (no_scheme hs)
  have hcut : beforeLast colon host.bytes = host.name := by rw [hbytes, host.beforeLast_name]
  constructor
  · rw [Traefik.isWormholeRequest, hprefix, Bool.false_or, hcut, isSuffixOf_iff]
  · intro htld
    rw [Traefik.extractWNSName, hprefix, hcut, (isSuffixOf_iff host).mpr htld]
    rfl

/-- With `wh://` it cuts the name at a slash. -/
theorem traefik_scheme {host : WnsHost} (hs : host.scheme = some whPrefix) :
    Traefik.isWormholeRequest host.bytes = true ∧
      (Traefik.extractWNSName host.bytes = host.name ↔ slash ∉ host.name) := by
  have hbytes : host.bytes = whPrefix ++ (host.name ++ host.portSuffix) := by
    rw [WnsHost.bytes, hs]; rfl
  have hprefix : whPrefix.isPrefixOf host.bytes = true := by
    rw [hbytes]; exact List.isPrefixOf_iff_prefix.mpr (List.prefix_append _ _)
  have hdrop : host.bytes.drop 5 = host.name ++ host.portSuffix := by
    rw [hbytes]; rfl
  refine ⟨by rw [Traefik.isWormholeRequest, hprefix]; rfl, ?_⟩
  rw [Traefik.extractWNSName, hprefix, if_pos rfl, hdrop]
  constructor
  · intro h hslash
    -- what is left ends before the first slash
    have hcut : slash ∉ beforeFirst slash (host.name ++ host.portSuffix) := fun hm => by
      have := List.mem_takeWhile_imp hm
      simp at this
    rw [← h] at hslash
    exact hcut (mem_of_mem_beforeLast hslash)
  · intro hslash
    have hport : slash ∉ host.portSuffix := by
      cases hp : host.port with
      | none => rw [host.portSuffix_none hp]; nofun
      | some p =>
        rw [host.portSuffix_some hp]
        exact fun hm => (host.port_low hp slash hm).2 rfl
    rw [beforeFirst_of_notMem fun hm => (List.mem_append.mp hm).elim hslash hport,
      host.beforeLast_name]

/-- Any other spelling of it is no prefix, and its colon cuts the name off. -/
theorem traefik_other_scheme {host : WnsHost} {s : Bytes} (hs : host.scheme = some s)
    (hne : s ≠ whPrefix) :
    ¬ (Traefik.isWormholeRequest host.bytes = true ∧
      Traefik.extractWNSName host.bytes = host.name) := by
  rintro ⟨-, hext⟩
  have hname := wnsHost_length host
  have hslow : s.map toLower = whPrefix := host.scheme_eq s hs
  have hslen : s.length = 5 := length_of_map hslow
  have hbytes : host.bytes = s ++ (host.name ++ host.portSuffix) := by
    rw [WnsHost.bytes, hs]; rfl
  have hprefix : whPrefix.isPrefixOf host.bytes = false := by
    refine Bool.eq_false_iff.mpr fun hp => hne ?_
    have htake : whPrefix = host.bytes.take 5 :=
      List.prefix_iff_eq_take.mp (List.isPrefixOf_iff_prefix.mp hp)
    rw [htake, hbytes, ← hslen, List.take_left]
  -- what stands before the last colon is longer than the name, or has two bytes
  have hcut : (beforeLast colon host.bytes).length ≠ host.name.length := by
    cases hp : host.port with
    | some p =>
      have hassoc : host.bytes = (s ++ host.name) ++ colon :: p := by
        rw [hbytes, host.portSuffix_some hp, List.append_assoc]
      rw [hassoc, beforeLast_append (host.port_noColon hp), List.length_append]
      omega
    | none =>
      obtain ⟨a, b, rest, hsplit, hrest⟩ : ∃ a b rest, s = a :: b :: colon :: rest ∧
          colon ∉ rest := by
        match s, hslow with
        | [a, b, c, d, e], hslow =>
          have hc : toLower c = colon := (List.cons.inj (List.cons.inj (List.cons.inj hslow).2).2).1
          have hde : [d, e].map toLower = [slash, slash] :=
            (List.cons.inj (List.cons.inj (List.cons.inj hslow).2).2).2
          rw [toLower_low hc (by decide)]
          refine ⟨a, b, [d, e], rfl, fun hm => ?_⟩
          exact absurd ((mem_of_map hde (by decide)).mp hm) (by decide)
      have hassoc : host.bytes = [a, b] ++ colon :: (rest ++ host.name) := by
        rw [hbytes, host.portSuffix_none hp, List.append_nil, hsplit]
        rfl
      have hcolon : colon ∉ rest ++ host.name := fun hm =>
        (List.mem_append.mp hm).elim hrest host.colon_notMem_name
      rw [hassoc, beforeLast_append hcolon]
      have htwo : [a, b].length = 2 := rfl
      omega
  rw [Traefik.extractWNSName, hprefix, if_neg Bool.false_ne_true] at hext
  split at hext
  · exact hcut (congrArg List.length hext)
  · rw [← hext] at hname
    cases hname

/-! ## Agreement -/

/-- **Headline.** The two modules agree on a host, on its name without a port, exactly
when it is `wh://` in lower case with a name without a slash, or a name that ends in
`.wns` in lower case and has something before it, alone. -/
theorem agrees_iff (ngx : Ngx) (headers : List (Bytes × Bytes))
    (hx : ∀ h ∈ headers, Nginx.isNameHeader ngx h = false) (host : WnsHost) :
    Agrees ngx headers host.bytes ↔
      (host.scheme = some whPrefix ∧ slash ∉ host.name) ∨
        (host.scheme = none ∧ host.port = none ∧ host.tld = dotWns ∧ host.stem ≠ []) := by
  have hname := host.colon_notMem_name
  cases hs : host.scheme with
  | none =>
    obtain ⟨hreq, hext⟩ := traefik_no_scheme hs
    cases hp : host.port with
    | none =>
      have hn := nginx_plain ngx hx hs hp
      constructor
      · rintro ⟨name, h1, h2, -, -⟩
        rw [hn] at h1
        split at h1
        · cases h1
        · rename_i hstem; exact .inr ⟨rfl, rfl, hreq.mp h2, hstem⟩
      · rintro (⟨h, -⟩ | ⟨-, -, htld, hstem⟩)
        · cases h
        · rw [if_neg hstem] at hn
          exact ⟨_, hn, hreq.mpr htld, hext htld, hname⟩
    | some p =>
      have hn := nginx_port ngx hx hs hp
      refine iff_of_false ?_ ?_
      · rintro ⟨name, h1, -⟩
        rw [hn] at h1
        cases h1
      · rintro (⟨h, -⟩ | ⟨-, h, -⟩) <;> cases h
  | some s =>
    have hn := nginx_scheme ngx hx hs
    by_cases hwh : s = whPrefix
    · subst hwh
      obtain ⟨hreq, hext⟩ := traefik_scheme hs
      constructor
      · rintro ⟨name, h1, -, h3, -⟩
        rw [hn] at h1
        cases h1
        exact .inl ⟨rfl, hext.mp h3⟩
      · rintro (⟨-, hslash⟩ | ⟨h, -⟩)
        · exact ⟨_, hn, hreq, hext.mpr hslash, hname⟩
        · cases h
    · refine iff_of_false ?_ ?_
      · rintro ⟨name, h1, h2, h3, -⟩
        rw [hn] at h1
        cases h1
        exact traefik_other_scheme hs hwh ⟨h2, h3⟩
      · rintro (⟨h, -⟩ | ⟨h, -⟩)
        · exact hwh (Option.some.inj h)
        · cases h

/-! ## Two hosts -/

/-- Byte for byte, up to a difference or a zero byte in both. -/
def compare : Bytes → Bytes → Nat → Int
  | c1 :: s, c2 :: t, n + 1 =>
    if toLower c1 = toLower c2 then (if toLower c1 = 0 then 0 else compare s t n)
    else (toLower c1).toNat - (toLower c2).toNat
  | _, _, _ => 0

theorem compare_zero_iff (s t : Bytes) (n : Nat) (hs : n ≤ s.length) (ht : n ≤ t.length)
    (h0 : 0 ∉ t) : compare s t n = 0 ↔ (s.take n).map toLower = (t.take n).map toLower := by
  induction n generalizing s t with
  | zero => simp [compare]
  | succ n ih =>
    match s, t with
    | c1 :: s, c2 :: t =>
      simp only [List.mem_cons, not_or, List.length_cons] at h0 hs ht
      simp only [compare, List.take_succ_cons, List.map_cons, List.cons.injEq]
      split
      · rename_i hc
        have hne : ¬ toLower c1 = 0 := by
          rw [hc]
          exact fun h => h0.1 (toLower_low h (by decide)).symm
        rw [if_neg hne, ih s t (by omega) (by omega) h0.2, and_iff_right hc]
      · rename_i hc
        refine iff_of_false (fun h => hc (UInt8.toNat_inj.mp ?_)) fun h => hc h.1
        omega

def ngx : Ngx := ⟨compare, compare_zero_iff⟩

/-- `alice.wns` -/
def alice (port : Option Bytes)
    (hport : ∀ p ∈ port, ∀ b ∈ p, 48 ≤ b.toNat ∧ b.toNat ≤ 57) : WnsHost :=
  ⟨none, encode "alice", dotWns, port, nofun, by decide, by decide, hport⟩

theorem alice_agrees : Agrees ngx [] (encode "alice.wns") :=
  (agrees_iff ngx [] nofun (alice none nofun)).mpr (.inr ⟨rfl, rfl, rfl, by decide⟩)

/-- `alice.wns:8080` -/
def aliceAt : WnsHost := alice (some (encode "8080")) (by decide +kernel)

/-- nginx looks for the suffix behind the port and does not find it; Traefik takes
the name. -/
theorem port_not_detected : aliceAt.bytes = encode "alice.wns:8080" ∧
    Nginx.isWormholeRequest ngx [] (some aliceAt.bytes) = none ∧
    Traefik.isWormholeRequest aliceAt.bytes = true ∧
    Traefik.extractWNSName aliceAt.bytes = encode "alice.wns" ∧
    ¬ ∀ (ngx : Ngx) (headers : List (Bytes × Bytes)),
      (∀ h ∈ headers, Nginx.isNameHeader ngx h = false) →
      ∀ host : WnsHost, Agrees ngx headers host.bytes := by
  have hnone : Nginx.isWormholeRequest ngx [] (some aliceAt.bytes) = none := by decide
  refine ⟨by decide, hnone, by decide, by decide, fun h => ?_⟩
  obtain ⟨name, hname, -⟩ := h ngx [] nofun aliceAt
  rw [hnone] at hname
  cases hname

end Wormhole.L4.HostDetection
