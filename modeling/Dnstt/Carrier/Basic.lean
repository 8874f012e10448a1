import Dnstt.Dns.WireFormat
import Dnstt.Codec.Base32
import Dnstt.Codec.Framing

/-!
# Client identifiers and records

The values `recvLoop` hands to `sendLoop`, shared by both variants of the server: the 8-byte
`turbotunnel.ClientID`, the `record` of a pending response, and the downstream bundle in which
`sendLoop` writes each packet after its 2-byte big-endian length. Also what both
`responseFor`s read of a query, for stating their checks: its OPT RRs, their EDNS version, its
one question and its decoded name, and the code of the first failing check.
-/

namespace Dnstt

open Dns

/-- `turbotunnel.ClientID`, an array of 8 bytes. -/
structure ClientID where
  bytes : List UInt8
  length_eq : bytes.length = 8
deriving DecidableEq

namespace ClientID

/-- The zero value `responseFor` starts from. -/
def zero : ClientID := ⟨List.replicate 8 0, rfl⟩

/-- `copy(clientID[:], payload)` into a zero ClientID: the first bytes of the payload, and how
many were copied. -/
def copyFrom (p : List UInt8) : ClientID × Nat :=
  (⟨p.take 8 ++ List.replicate (8 - p.length) 0, by simp; omega⟩, min 8 p.length)

theorem copyFrom_of_le {p : List UInt8} (h : 8 ≤ p.length) :
    copyFrom p = (⟨p.take 8, by simp; omega⟩, 8) := by
  simp [copyFrom, Nat.sub_eq_zero_of_le h, Nat.min_eq_left h]

end ClientID

/-- A UDP address, opaque to the server. -/
structure Addr where
  id : Nat
deriving DecidableEq

/-- `record`: a response waiting for `sendLoop`, with where to send it and whose packets it may
carry. -/
structure Record where
  resp : Message
  addr : Addr
  clientID : ClientID
deriving DecidableEq

def responseTTL : UInt32 := 60

/-- The OPT RR of a response: root name, class 4096 (our UDP payload size), TTL 0, no data. -/
def optRR : RR := ⟨Name.root, rrTypeOPT, 4096, 0, []⟩

/-- The domain `t`, for runs on fixed inputs. -/
def domainT : Name := ⟨[[0x74]], by decide, by decide⟩

/-- The downstream bundle of `sendLoop`: each packet after its length as a big-endian `uint16`. -/
def bundleBytes (ps : List (List UInt8)) : List UInt8 :=
  ps.flatMap fun p => u16be p.length.toUInt16 ++ p

@[simp] theorem bundleBytes_nil : bundleBytes [] = [] := rfl

theorem bundleBytes_append (ps qs : List (List UInt8)) :
    bundleBytes (ps ++ qs) = bundleBytes ps ++ bundleBytes qs := List.flatMap_append _ _ _

theorem bundleBytes_length (ps : List (List UInt8)) :
    (bundleBytes ps).length = (ps.map fun p => 2 + p.length).sum := by
  induction ps with
  | nil => rfl
  | cons p ps ih =>
    simp only [bundleBytes, List.flatMap_cons, List.length_append, u16be_length, List.map_cons,
      List.sum_cons] at ih ⊢
    omega

/-! ## What `responseFor` reads of a query -/

/-- The OPT RRs of the Additional section. -/
def opts (query : Message) : List RR := query.additional.filter (·.type == rrTypeOPT)

theorem type_of_mem_opts {query : Message} {o : RR} (h : o ∈ opts query) : o.type = rrTypeOPT := by
  simpa [opts] using (List.mem_filter.mp h).2

/-- The EDNS version of an OPT RR: bits 16 to 23 of its TTL. -/
def ednsVersion (rr : RR) : UInt32 := (rr.ttl >>> 16) &&& 0xff

/-- The one question of a query. -/
def question? (query : Message) : Option Question :=
  match query.question with
  | [q] => some q
  | _ => none

/-- The labels before the domain, joined, upper-cased and decoded. -/
def decodedName? (query : Message) (domain : Name) : Option (List UInt8) := do
  let q ← question? query
  let pre ← q.name.trimSuffix domain
  Base32.decode (Base32.toUpper pre.labels.flatten)

/-- The code of the first check that fails; NOERROR when all pass. -/
def firstFailing : List (Bool × Nat) → Nat
  | [] => 0
  | (ok, code) :: rest => if ok then firstFailing rest else code

@[simp] theorem firstFailing_nil : firstFailing [] = 0 := rfl

@[simp] theorem firstFailing_cons_true (code : Nat) (rest : List (Bool × Nat)) :
    firstFailing ((true, code) :: rest) = firstFailing rest := rfl

@[simp] theorem firstFailing_cons_false (code : Nat) (rest : List (Bool × Nat)) :
    firstFailing ((false, code) :: rest) = code := rfl

theorem firstFailing_le (cs : List (Bool × Nat)) (n : Nat) (h : ∀ c ∈ cs.map (·.2), c ≤ n) :
    firstFailing cs ≤ n := by
  induction cs with
  | nil => exact Nat.zero_le _
  | cons p cs ih =>
    obtain ⟨ok, code⟩ := p
    cases ok
    · exact h code (List.mem_cons_self _ _)
    · exact ih fun c hc => h c (List.mem_cons_of_mem _ hc)


end Dnstt
