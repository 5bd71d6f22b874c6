import Wormhole.L1Encoding.IsoFormat
import Wormhole.L1Encoding.PyBytes

/-!
# The messages that are signed

An advertisement (`src/wh/wns/advertisement.py`) and a name claim
(`src/wh/wns/names.py`) sign their fields joined by colons. Codes, names and
timestamps may contain colons themselves; what makes a message readable is that
an address has 26 characters and that an `isoformat` can be read from the end.

* `adv_message_inj`, `name_message_inj`: a message determines its fields.
* `adv_ne_name`: no message is one of both kinds.
-/
namespace Wormhole.L4.Wns
open Wormhole.L1

/-! ## Addresses -/

def BASE32_ALPHABET : String := "abcdefghijklmnopqrstuvwxyz234567"

/-- What `_derive_address` returns: 16 bytes in base 32.
mirrors src/wh/wns/identity.py:103-109 -/
structure Address where
  text : String
  length_eq : text.length = 26
  base32 : ∀ c ∈ text.toList, c ∈ BASE32_ALPHABET.toList

/-! ## The messages -/

/-- mirrors src/wh/wns/advertisement.py:91-101 (`_create_sign_message`) -/
def CodeAdvertisement.createSignMessage (address code : String) (timestamp expires : DateTime) :
    Bytes :=
  encode ("WNS-ADV-v1:" ++ address ++ ":" ++ code ++ ":" ++ timestamp.isoformat ++ ":" ++
    expires.isoformat)

/-- mirrors src/wh/wns/names.py:191-200 (`_create_sign_message`) -/
def NameClaim.createSignMessage (name address : String) (timestamp expires : DateTime) : Bytes :=
  encode ("WNS-NAME-v1:" ++ name ++ ":" ++ address ++ ":" ++ timestamp.isoformat ++ ":" ++
    expires.isoformat)

/-! ## Reading from the end -/

theorem isoformat_string_inj {s s' : String} {t t' : DateTime}
    (h : s ++ t.isoformat = s' ++ t'.isoformat) : s = s' ∧ t.isoformat = t'.isoformat := by
  have hl := congrArg String.toList h
  rw [String.toList_append, String.toList_append] at hl
  obtain ⟨hs, ht⟩ := isoformat_append_inj hl
  exact ⟨String.toList_inj.mp hs, ht⟩

/-- Two parts of one length in front of the same separator, or at the end. -/
theorem string_append_inj {s s' t t' : String} (h : s ++ t = s' ++ t')
    (hlen : s.length = s'.length) : s = s' ∧ t = t' := by
  have hl := congrArg String.toList h
  rw [String.toList_append, String.toList_append] at hl
  obtain ⟨hs, ht⟩ := List.append_inj hl (by simpa only [String.length_toList] using hlen)
  exact ⟨String.toList_inj.mp hs, String.toList_inj.mp ht⟩

theorem string_append_inj' {s s' t t' : String} (h : s ++ t = s' ++ t')
    (hlen : t.length = t'.length) : s = s' ∧ t = t' := by
  have hl := congrArg String.toList h
  rw [String.toList_append, String.toList_append] at hl
  obtain ⟨hs, ht⟩ := List.append_inj' hl (by simpa only [String.length_toList] using hlen)
  exact ⟨String.toList_inj.mp hs, String.toList_inj.mp ht⟩

/-- The two timestamps, which both messages end in. -/
theorem timestamps_inj {s s' : String} {t t' e e' : DateTime}
    (h : s ++ ":" ++ t.isoformat ++ ":" ++ e.isoformat =
      s' ++ ":" ++ t'.isoformat ++ ":" ++ e'.isoformat) :
    s = s' ∧ t.isoformat = t'.isoformat ∧ e.isoformat = e'.isoformat := by
  obtain ⟨h, he⟩ := isoformat_string_inj h
  obtain ⟨h, ht⟩ := isoformat_string_inj (string_append_inj' h rfl).1
  exact ⟨(string_append_inj' h rfl).1, ht, he⟩

/-! ## Results -/

/-- The address is read from the front, the timestamps from the end, and the
code is the rest. -/
theorem adv_message_inj {a a' : Address} {c c' : String} {t t' e e' : DateTime}
    (h : CodeAdvertisement.createSignMessage a.text c t e =
      CodeAdvertisement.createSignMessage a'.text c' t' e') :
    a.text = a'.text ∧ c = c' ∧ t.isoformat = t'.isoformat ∧ e.isoformat = e'.isoformat := by
  obtain ⟨h, ht, he⟩ := timestamps_inj (encode_inj h)
  rw [String.append_assoc, String.append_assoc, String.append_assoc, String.append_assoc] at h
  have hrest := (string_append_inj h rfl).2
  obtain ⟨ha, hcode⟩ := string_append_inj hrest (a.length_eq.trans a'.length_eq.symm)
  exact ⟨ha, (string_append_inj hcode rfl).2, ht, he⟩

/-- The address and the timestamps are read from the end, and the name is the
rest. -/
theorem name_message_inj {n n' : String} {a a' : Address} {t t' e e' : DateTime}
    (h : NameClaim.createSignMessage n a.text t e = NameClaim.createSignMessage n' a'.text t' e') :
    n = n' ∧ a.text = a'.text ∧ t.isoformat = t'.isoformat ∧ e.isoformat = e'.isoformat := by
  obtain ⟨h, ht, he⟩ := timestamps_inj (encode_inj h)
  obtain ⟨h, ha⟩ := string_append_inj' h (a.length_eq.trans a'.length_eq.symm)
  have hname := (string_append_inj' h rfl).1
  exact ⟨(string_append_inj hname rfl).2, ha, ht, he⟩

/-- The fifth characters differ. -/
theorem adv_ne_name (a c n b : String) (t e u f : DateTime) :
    CodeAdvertisement.createSignMessage a c t e ≠ NameClaim.createSignMessage n b u f := by
  intro h
  have hl := congrArg (fun s => s.toList[4]?) (encode_inj h)
  simp at hl

/-- **Headline.** Signed messages are unambiguous: two advertisements' messages
are equal only if their addresses, codes, timestamps and expiries are, two
claims' messages only if their names, addresses, timestamps and expiries are,
and no message is of both kinds. -/
theorem messages_unambiguous (a a' : Address) (s s' : String) (t t' e e' : DateTime) :
    (CodeAdvertisement.createSignMessage a.text s t e =
        CodeAdvertisement.createSignMessage a'.text s' t' e' ↔
      (a.text, s, t.isoformat, e.isoformat) = (a'.text, s', t'.isoformat, e'.isoformat)) ∧
    (NameClaim.createSignMessage s a.text t e = NameClaim.createSignMessage s' a'.text t' e' ↔
      (s, a.text, t.isoformat, e.isoformat) = (s', a'.text, t'.isoformat, e'.isoformat)) ∧
    CodeAdvertisement.createSignMessage a.text s t e ≠
      NameClaim.createSignMessage s' a'.text t' e' := by
  refine ⟨⟨?_, ?_⟩, ⟨?_, ?_⟩, adv_ne_name a.text s s' a'.text t e t' e'⟩
  · intro h
    obtain ⟨ha, hs, ht, he⟩ := adv_message_inj h
    rw [ha, hs, ht, he]
  · intro h
    simp only [Prod.mk.injEq] at h
    obtain ⟨ha, hs, ht, he⟩ := h
    rw [CodeAdvertisement.createSignMessage, CodeAdvertisement.createSignMessage, ha, hs, ht, he]
  · intro h
    obtain ⟨hs, ha, ht, he⟩ := name_message_inj h
    rw [hs, ha, ht, he]
  · intro h
    simp only [Prod.mk.injEq] at h
    obtain ⟨hs, ha, ht, he⟩ := h
    rw [NameClaim.createSignMessage, NameClaim.createSignMessage, hs, ha, ht, he]

end Wormhole.L4.Wns
