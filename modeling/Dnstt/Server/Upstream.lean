import Dnstt.Noise.Loops
import Dnstt.Plain.Loops

/-!
# The upstream direction, end to end

A client sends its packets inside the name of a TXT query: its ClientID followed by a run of
frames (each packet after its length byte, or padding), base32 encoded without padding, each
letter in either case, split into labels under the tunnel's domain. `responseFor` upper-cases
and decodes the labels before the domain and splits off the ClientID; `recvLoop` extracts the
packets with `nextPacket` and passes each to `QueueIncoming` with that ClientID.

* `recvLoop_recovers_upstream`: in every run of either server's `recvLoop` whose datagrams each
  hold a query a client built, the `QueueIncoming` calls are, datagram by datagram, exactly the
  packets each client framed, with its ClientID. The Noise server also needs one OPT RR of EDNS
  version 0 with a UDP payload size of at least 1232; the plain server takes a query with no OPT
  RR, or with one of any version and size.
-/

namespace Dnstt

open Dns Framing

/-! ## A client's query -/

/-- A query as a client builds it for `domain`: QR and OPCODE 0, and one TXT question whose
labels before the domain are, letter by letter in either case, the base32 encoding of the
ClientID `c` followed by the valid frames `fs`. -/
structure Carries (query : Message) (domain : Name) (c : ClientID) (fs : List Frame) : Prop where
  isQuery : query.flags &&& 0x8000 = 0
  opcode : query.flags &&& 0x7800 = 0
  question : ∃ qn pre, query.question = [qn] ∧ qn.type = rrTypeTXT ∧
    qn.name.labels = pre ++ domain.labels ∧
    List.Forall₂ Base32.CaseOf pre.flatten (Base32.encode (c.bytes ++ encodeFrames fs))
  frames : ∀ f ∈ fs, f.Valid

variable {query : Message} {domain : Name} {c : ClientID} {fs : List Frame}

/-- The labels before the domain decode to the ClientID followed by the frames. -/
theorem Carries.decode (h : Carries query domain c fs) :
    ∃ qn pre, query.question = [qn] ∧ qn.type = rrTypeTXT ∧ qn.name.labels = pre ++ domain.labels ∧
      Base32.decode (Base32.toUpper pre.flatten) = some (c.bytes ++ encodeFrames fs) :=
  let ⟨qn, pre, hq, hty, hl, hcase⟩ := h.question
  ⟨qn, pre, hq, hty, hl, by rw [Base32.toUpper_of_caseOf hcase, Base32.decode_encode]⟩

/-- `copy(clientID[:], payload)` takes the ClientID back from the front of the payload. -/
theorem copyFrom_append (c : ClientID) (rest : List UInt8) :
    ClientID.copyFrom (c.bytes ++ rest) = (c, 8) := by
  obtain ⟨b, hb⟩ := c
  rw [ClientID.copyFrom_of_le (by simp [hb])]
  simp [List.take_left' hb]

/-! ## Each server, one datagram at a time -/

namespace Noise

/-- The Noise server accepts a client's query with one OPT RR of version 0 and a UDP payload
size of at least 1232, and queues the packets it carries with its ClientID. -/
theorem queuedBy_carries {parse : List UInt8 → Option Message} {buf : List UInt8}
    (hp : parse (buf.take 4096) = some query) (h : Carries query domain c fs)
    (hopt : ∃ o, opts query = [o] ∧ ednsVersion o = 0 ∧ maxUDPPayload ≤ o.cls.toNat) :
    queuedBy parse responseFor domain buf = (packetsIn fs).map (·, c) := by
  obtain ⟨qn, pre, hq, hty, hl, hd⟩ := h.decode
  obtain ⟨p, hp', rfl⟩ := Name.trimSuffix_append hl
  have hs := responseFor_snd_of_accepts
    ⟨h.isQuery, h.opcode, ⟨qn, hq, hty, p, hp', hd⟩, hopt, by simp [c.length_eq]⟩
  rw [copyFrom_append, List.drop_left' c.length_eq] at hs
  simp only [queuedBy, hp, hs, packetsOf_encodeFrames h.frames]

end Noise

namespace Plain

/-- With at most one OPT RR the loop over the Additional section goes through, whatever the
RR's version: only a second OPT RR returns early with FORMERR. -/
theorem additionalLoop_ok (resp : Message) (ha : resp.additional = [])
    (h : (opts query).length ≤ 1) : ∃ r, additionalLoop resp query.additional = .ok r := by
  rw [additionalLoop_filter]
  change ∃ r, additionalLoop resp (opts query) = .ok r
  rcases ho : opts query with _ | ⟨o, _ | ⟨o', os⟩⟩
  · exact ⟨resp, rfl⟩
  · have hot := type_of_mem_opts (show o ∈ opts query by simp [ho])
    simp only [additionalLoop, hot, ha, List.length_nil, ne_eq, not_true_eq_false, if_false]
    split_ifs <;> exact ⟨_, rfl⟩
  · simp [ho] at h

/-- The plain server accepts a client's query with at most one OPT RR, and queues the packets
it carries with its ClientID. -/
theorem queuedBy_carries {parse : List UInt8 → Option Message} {buf : List UInt8}
    (hp : parse (buf.take 4096) = some query) (h : Carries query domain c fs)
    (hopt : (opts query).length ≤ 1) :
    queuedBy parse responseFor domain buf = (packetsIn fs).map (·, c) := by
  obtain ⟨qn, pre, hq, hty, hl, hd⟩ := h.decode
  obtain ⟨p, hp', hpre⟩ := Name.trimSuffix_append hl
  obtain ⟨r, hr⟩ := additionalLoop_ok ⟨query.id, 0x8400, query.question, [], []⟩ rfl hopt
  have hs : (responseFor query domain).2 = (c, encodeFrames fs) := by
    simp only [responseFor, h.isQuery, ne_eq, not_true_eq_false, if_false, hr]
    simp [questionChecks, h.opcode, hq, hty, hp', hpre, hd, copyFrom_append,
      List.drop_left' c.length_eq]
  simp only [queuedBy, hp, hs, packetsOf_encodeFrames h.frames]

end Plain

/-! ## Every run -/

/-- A run of `recvLoop` in which each datagram queues the packets of the frames it carries,
with their ClientID, queues exactly those, datagram by datagram. -/
theorem recvLoop_incoming_of_queuedBy {parse : List UInt8 → Option Message}
    {respond : Message → Name → Option Message × ClientID × List UInt8}
    (carried : List UInt8 → ClientID × List Frame) {reads : List (ReadResult × Bool)}
    (h : ∀ buf ∈ datagramsRead reads,
      queuedBy parse respond domain buf = (packetsIn (carried buf).2).map (·, (carried buf).1)) :
    (recvLoop parse respond domain ⟨[], []⟩ reads).incoming =
      ((datagramsRead reads).map fun buf => (packetsIn (carried buf).2).map (·, (carried buf).1)).flatten := by
  rw [recvLoop_incoming, List.map_congr_left h]
  rfl

/-- In every run of either server's `recvLoop` whose datagrams each hold a query a client built,
carrying `carried buf`, the packets passed to `QueueIncoming` are, datagram by datagram and in
order, the packets each client framed, each with its ClientID. The Noise server needs one OPT
RR of version 0 and a UDP payload size of at least 1232; the plain server at most one OPT RR. -/
theorem recvLoop_recovers_upstream (parse : List UInt8 → Option Message) (domain : Name)
    (carried : List UInt8 → ClientID × List Frame) (reads : List (ReadResult × Bool)) :
    ((∀ buf ∈ datagramsRead reads, ∃ query, parse (buf.take 4096) = some query ∧
        Carries query domain (carried buf).1 (carried buf).2 ∧
        ∃ o, opts query = [o] ∧ ednsVersion o = 0 ∧ Noise.maxUDPPayload ≤ o.cls.toNat) →
      (Noise.recvLoop parse domain ⟨[], []⟩ reads).incoming =
        ((datagramsRead reads).map fun buf =>
          (packetsIn (carried buf).2).map (·, (carried buf).1)).flatten) ∧
    ((∀ buf ∈ datagramsRead reads, ∃ query, parse (buf.take 4096) = some query ∧
        Carries query domain (carried buf).1 (carried buf).2 ∧ (opts query).length ≤ 1) →
      (recvLoop parse Plain.responseFor domain ⟨[], []⟩ reads).incoming =
        ((datagramsRead reads).map fun buf =>
          (packetsIn (carried buf).2).map (·, (carried buf).1)).flatten) := by
  constructor
  · intro h
    refine recvLoop_incoming_of_queuedBy carried fun buf hb => ?_
    obtain ⟨query, hp, hc, hopt⟩ := h buf hb
    exact Noise.queuedBy_carries hp hc hopt
  · intro h
    refine recvLoop_incoming_of_queuedBy carried fun buf hb => ?_
    obtain ⟨query, hp, hc, hopt⟩ := h buf hb
    exact Plain.queuedBy_carries hp hc hopt

/-- A client with the zero ClientID sending the packet `[7]` under the root domain:
`aaaaaaaa.AAAAAAiH`, the encoding `AAAAAAAAAAAAAAIH` of its 10 bytes split in two labels and
partly in lower case, with an OPT RR of version 0 and class 4096. -/
def clientQuery : Message :=
  ⟨0, 0, [⟨⟨[List.replicate 8 0x61, List.replicate 6 0x41 ++ [0x69, 0x48]], by decide, by decide⟩,
    rrTypeTXT, 1⟩], [], [optRR]⟩

theorem clientQuery_carries : Carries clientQuery Name.root ClientID.zero [.packet [7]] :=
  ⟨by decide, by decide,
    ⟨_, [List.replicate 8 0x61, List.replicate 6 0x41 ++ [0x69, 0x48]], rfl, rfl, rfl, by decide⟩,
    by simp [Frame.Valid]⟩

/-- Both servers read `clientQuery` once and queue `[7]` for the zero ClientID. -/
theorem recvLoop_recovers_upstream_client_query :
    ((∀ buf ∈ datagramsRead [(.datagram [] ⟨0⟩, true)], ∃ query,
        some clientQuery = some query ∧ Carries query Name.root ClientID.zero [.packet [7]] ∧
        ∃ o, opts query = [o] ∧ ednsVersion o = 0 ∧ Noise.maxUDPPayload ≤ o.cls.toNat) ∧
      (Noise.recvLoop (fun _ => some clientQuery) Name.root ⟨[], []⟩
        [(.datagram [] ⟨0⟩, true)]).incoming = [([7], ClientID.zero)]) ∧
    ((∀ buf ∈ datagramsRead [(.datagram [] ⟨0⟩, true)], ∃ query,
        some clientQuery = some query ∧ Carries query Name.root ClientID.zero [.packet [7]] ∧
        (opts query).length ≤ 1) ∧
      (recvLoop (fun _ => some clientQuery) Plain.responseFor Name.root ⟨[], []⟩
        [(.datagram [] ⟨0⟩, true)]).incoming = [([7], ClientID.zero)]) := by
  have hopt : opts clientQuery = [optRR] := rfl
  have hn : ∀ buf ∈ datagramsRead [(.datagram [] ⟨0⟩, true)], ∃ query,
      some clientQuery = some query ∧ Carries query Name.root ClientID.zero [.packet [7]] ∧
      ∃ o, opts query = [o] ∧ ednsVersion o = 0 ∧ Noise.maxUDPPayload ≤ o.cls.toNat :=
    fun _ _ => ⟨_, rfl, clientQuery_carries, optRR, hopt, rfl, by decide⟩
  have hp : ∀ buf ∈ datagramsRead [(.datagram [] ⟨0⟩, true)], ∃ query,
      some clientQuery = some query ∧ Carries query Name.root ClientID.zero [.packet [7]] ∧
      (opts query).length ≤ 1 :=
    fun _ _ => ⟨_, rfl, clientQuery_carries, by rw [hopt]; decide⟩
  exact ⟨⟨hn, (recvLoop_recovers_upstream (fun _ => some clientQuery) Name.root
      (fun _ => (ClientID.zero, [.packet [7]])) _).1 hn⟩,
    ⟨hp, (recvLoop_recovers_upstream (fun _ => some clientQuery) Name.root
      (fun _ => (ClientID.zero, [.packet [7]])) _).2 hp⟩⟩

end Dnstt
