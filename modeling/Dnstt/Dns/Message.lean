import Mathlib

/-!
# DNS messages

The data model of the `dns` package the server is written against: names, questions,
resource records and messages, and the constants the server reads. The package itself is not
among the sources; where the server relies on its behaviour (`Message.rcode`,
`Name.trimSuffix`) the definitions follow the specification and the standard: a suffix is
matched without regard to ASCII case, as DNS names are compared.

* `Name` carries the limits the parser enforces, labels of 1 to 63 bytes and at most 255
  bytes in wire form, so every name that reaches `responseFor` satisfies them.
* `Name.trimSuffix_eq_some`: stripping a suffix succeeds exactly on names whose last labels
  equal the suffix's up to ASCII case, and returns the labels before them.
* `Message.extendedRcode`: the 12-bit RCODE of RFC 6891, the top byte of the OPT RR's TTL
  over the header nibble.
-/

namespace Dnstt.Dns

/-! ## Names -/

/-- Length of labels in wire form without compression: each label with its length byte, and
the terminating zero byte. -/
def wireLength (labels : List (List UInt8)) : Nat := (labels.map fun l => l.length + 1).sum + 1

/-- A domain name, as the parser admits it: labels of 1 to 63 bytes, at most 255 bytes in wire
form. -/
structure Name where
  labels : List (List UInt8)
  label_ok : ∀ l ∈ labels, 0 < l.length ∧ l.length ≤ 63
  wire_le : wireLength labels ≤ 255
deriving DecidableEq

theorem wireLength_take_le (labels : List (List UInt8)) (k : Nat) :
    wireLength (labels.take k) ≤ wireLength labels := by
  unfold wireLength
  have h := congrArg (fun l => (l.map fun l : List UInt8 => l.length + 1).sum)
    (List.take_append_drop k labels)
  simp only [List.map_append, List.sum_append] at h
  omega

namespace Name

/-- The root name, with no labels. -/
def root : Name := ⟨[], by simp, by decide⟩

/-- The first `k` labels of a name are a name. -/
def take (name : Name) (k : Nat) : Name :=
  ⟨name.labels.take k, fun l hl => name.label_ok l (List.mem_of_mem_take hl),
    (wireLength_take_le _ k).trans name.wire_le⟩

/-- ASCII lower-casing of one byte. -/
def lowerAscii (c : UInt8) : UInt8 := if 0x41 ≤ c ∧ c ≤ 0x5A then c + 0x20 else c

/-- A label with its ASCII letters lower-cased. -/
def lowerLabel (l : List UInt8) : List UInt8 := l.map lowerAscii

/-- `Name.TrimSuffix` of the `dns` package, which is not among the sources. When the name has
at least as many labels as the suffix and its last labels equal the suffix's labels with
`bytes.ToLower` applied to both, it returns the labels before them. `bytes.ToLower` also maps
non-ASCII letters and invalid UTF-8; only ASCII letters are lowered here. -/
def trimSuffix (name suffix : Name) : Option Name :=
  if suffix.labels.length ≤ name.labels.length ∧
      (name.labels.drop (name.labels.length - suffix.labels.length)).map lowerLabel =
        suffix.labels.map lowerLabel then
    some (name.take (name.labels.length - suffix.labels.length))
  else none

theorem ext_labels {a b : Name} (h : a.labels = b.labels) : a = b := by
  cases a; cases b; cases h; rfl

/-- Stripping a suffix succeeds exactly on names `pre ++ aft` whose last labels `aft` equal the
suffix's labels up to ASCII case, and returns `pre`. -/
theorem trimSuffix_eq_some {name suffix pre : Name} :
    name.trimSuffix suffix = some pre ↔
      ∃ aft, name.labels = pre.labels ++ aft ∧ aft.map lowerLabel = suffix.labels.map lowerLabel := by
  unfold trimSuffix
  split
  · next h =>
    rw [Option.some.injEq]
    constructor
    · rintro rfl
      exact ⟨_, (List.take_append_drop _ _).symm, h.2⟩
    · rintro ⟨aft, hn, ha⟩
      have hlen : aft.length = suffix.labels.length := by simpa using congrArg List.length ha
      apply ext_labels
      simp [take, hn, hlen]
  · next h =>
    simp only [reduceCtorEq, false_iff, not_exists, not_and]
    intro aft hn ha
    have hlen : aft.length = suffix.labels.length := by simpa using congrArg List.length ha
    exact h ⟨by simp [hn, hlen], by simpa [hn, hlen] using ha⟩

/-- A name that is `pre` followed by the suffix's labels, byte for byte, loses exactly the
suffix. -/
theorem trimSuffix_append {name suffix : Name} {pre : List (List UInt8)}
    (h : name.labels = pre ++ suffix.labels) : ∃ p : Name, name.trimSuffix suffix = some p ∧ p.labels = pre := by
  unfold trimSuffix
  rw [if_pos (by simp [h])]
  exact ⟨_, rfl, by simp [take, h]⟩

end Name

/-! ## Questions, resource records and messages -/

/-- An entry of the Question section. -/
structure Question where
  name : Name
  type : UInt16
  cls : UInt16
deriving DecidableEq

/-- A resource record. -/
structure RR where
  name : Name
  type : UInt16
  cls : UInt16
  ttl : UInt32
  data : List UInt8
deriving DecidableEq

/-- A DNS message. The Authority section is left out: the server never reads it in a query
and never fills it in a response. -/
structure Message where
  id : UInt16
  flags : UInt16
  question : List Question
  answer : List RR
  additional : List RR
deriving DecidableEq

def rrTypeTXT : UInt16 := 16
def rrTypeOPT : UInt16 := 41

def rcodeNoError : UInt16 := 0
def rcodeFormatError : UInt16 := 1
def rcodeNameError : UInt16 := 3
def rcodeNotImplemented : UInt16 := 4
/-- BADVERS, an extended RCODE: its low four bits go in the header, the rest in the OPT TTL. -/
def extendedRcodeBadVers : Nat := 16

namespace Message

/-- Modelled from the spec: `Message.Rcode` of the `dns` package, the RCODE field of the
header, which is the low four bits of the flags. -/
def rcode (m : Message) : UInt16 := m.flags &&& 0xf

/-- The first OPT RR of the Additional section. -/
def opt? (m : Message) : Option RR := m.additional.find? (·.type == rrTypeOPT)

/-- The extended RCODE of RFC 6891: the top byte of the OPT RR's TTL above the four bits of
the header's RCODE field (the top byte counts as zero without an OPT RR). -/
def extendedRcode (m : Message) : Nat :=
  (m.opt?.map fun rr => rr.ttl.toNat / 2 ^ 24).getD 0 * 16 + m.rcode.toNat

/-- The AA bit of the header. -/
def aa (m : Message) : Bool := m.flags &&& 0x0400 != 0

end Message

end Dnstt.Dns
