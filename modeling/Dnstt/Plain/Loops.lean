import Dnstt.Carrier.Loop
import Dnstt.Plain.ResponseFor

/-!
# The loops of the plain server

The plain server's `sendLoop` is the shared loop with its own Answer RR (the question's name,
type TXT, class 0), a bundle capacity computed per question name by `dnsMessageCapacity`, and
no truncation. `dnsMessageCapacity` budgets a 512-byte message holding the question and the
Answer RR; the KCP MTU is the capacity of the longest name. `loop` runs `recvLoop` and
`sendLoop` over their channel, interleaved in any order; every record on the channel comes from
`responseFor`.

* `dnsMessageCapacity_eq`: the capacity of a name of `w` bytes in wire form is
  `(484 - w) * 255 / 256`; the MTU is 228 (`mtu_eq`).
* `sendLoop_exceeds_512`: the budget leaves out the OPT RR the response echoes, so a bundle
  filled to the capacity of a 255-byte name makes a 523-byte response.
* `sendLoop_response_size`, `loop_writes_within`: the bound that does hold, 514 bytes and 11
  per echoed OPT RR, over every run of `sendLoop` and of `loop` whose packets fit the MTU.
-/

namespace Dnstt.Plain

open Dns SendState

/-- `dnsMessageCapacity`: the downstream payload a response to a question for `name` may carry
so that the response fits in 512 bytes, after the TXT length bytes (255 of every 256 bytes).
Serializing one question and one RR without data cannot fail (`panic(err)` in the source). -/
def dnsMessageCapacity (name : Name) : Nat :=
  let message : Message := ⟨0, 0, [⟨name, 0, 0⟩], [⟨name, 0, 0, 0, []⟩], []⟩
  match wireFormat message with
  | .ok builder => (512 - builder.length) * 255 / 256
  | .error _ => 0

/-- The longest name, 255 bytes in wire form, that `acceptSessions` sizes the MTU for. -/
def longName : Name :=
  ⟨[List.replicate 63 0x61, List.replicate 63 0x62, List.replicate 63 0x63, List.replicate 61 0x64],
    by decide, by decide⟩

/-- The MTU `acceptSessions` sets on every KCP session. -/
def mtu : Nat := dnsMessageCapacity longName

/-- The plain server's parameters of `sendLoop`. -/
def plain : Variant where
  answerFor q := ⟨q.name, rrTypeTXT, 0, responseTTL, []⟩
  capacity q := dnsMessageCapacity q.name
  finish buf := buf

/-- `sendLoop`, through a list of events. -/
def sendLoop (s : SendState) (es : List SendEvent) : Option SendState := run plain s es

/-! ## The capacity -/

/-- The message `dnsMessageCapacity` measures is the question, `w` bytes of name and 4 more,
and the Answer RR, whose name is a pointer to the question's (one byte for the root), and
10 more: 26 bytes besides the names. -/
theorem dnsMessageCapacity_eq (name : Name) :
    dnsMessageCapacity name =
      (486 - (wireLength name.labels + if name.labels = [] then 1 else 2)) * 255 / 256 := by
  have hlen : (build ⟨0, 0, [⟨name, 0, 0⟩], [⟨name, 0, 0, 0, []⟩], []⟩).out.length =
      12 + (wireLength name.labels + 4) + ((if name.labels = [] then 1 else 2) + 10) := by
    rw [build_single_length rfl rfl rfl (by simp)]
    simp
  have hok : wireFormat ⟨0, 0, [⟨name, 0, 0⟩], [⟨name, 0, 0, 0, []⟩], []⟩ =
      .ok (build ⟨0, 0, [⟨name, 0, 0⟩], [⟨name, 0, 0, 0, []⟩], []⟩).out :=
    if_pos ⟨by simp, by simp, by simp, by simp⟩
  simp only [dnsMessageCapacity, hok, hlen]
  congr 2
  omega

theorem mtu_eq : mtu = 228 := by
  rw [mtu, dnsMessageCapacity_eq]
  rfl

/-! ## The size of a response -/

/-- A bare NOERROR response with a bundle serializes to the 26 bytes and the names that
`dnsMessageCapacity` counts, the TXT data, and 11 bytes for an OPT RR. -/
theorem wireFormat_bundle {resp : Message} {q : Question} (hq : resp.question = [q])
    (hb : Bare resp) {bytes : List UInt8} (hlen : bytes.length ≤ 65000) :
    ∃ buf, wireFormat { resp with
        answer := [{ plain.answerFor q with data := encodeRDataTXT bytes }] } = .ok buf ∧
      buf.length = 26 + (wireLength q.name.labels + if q.name.labels = [] then 1 else 2) +
        (encodeRDataTXT bytes).length + 11 * resp.additional.length := by
  let m : Message := { resp with answer := [{ plain.answerFor q with data := encodeRDataTXT bytes }] }
  have hdata := encodeRDataTXT_length bytes
  have hsum : (resp.additional.map fun a => 11 + a.data.length).sum = 11 * resp.additional.length := by
    match h : resp.additional, hb.2.1 with
    | [], _ => simp
    | [a], _ => simp [(hb.2.2 a (by simp [h])).2]
  have hok : wireFormat m = .ok (build m).out := by
    refine if_pos ⟨by simp [m, hq], by simp [m], by simp only [m]; have := hb.2.1; omega, ?_⟩
    intro rr hrr
    simp only [m, List.cons_append, List.nil_append, List.mem_cons] at hrr
    rcases hrr with rfl | hrr
    · simp only [plain]; omega
    · simp [(hb.2.2 rr hrr).2]
  refine ⟨_, hok, ?_⟩
  rw [@build_single_length m q _ hq rfl rfl fun a ha => by simp [(hb.2.2 a ha).1, Name.root]]
  simp only [m, hsum]
  omega

/-- The datagrams of a state of `sendLoop`: each is the serialization of a reply, written to
its record's address; with a bundle it is within 512 bytes and 11 per echoed OPT RR when the
bundle fits the capacity, and within 2 bytes more when it is one leftover packet too long
for it. -/
def WritesWithin (s : SendState) : Prop :=
  ∀ w ∈ s.writes, ∃ r ∈ s.replies, w.1 = r.record.addr ∧ wireFormat r.msg = .ok w.2 ∧
    ∀ q ps, r.record.resp.question = [q] → r.bundle = some ps →
      w.2.length ≤ 514 + 11 * r.record.resp.additional.length ∧
      ((bundleBytes ps).length ≤ dnsMessageCapacity q.name →
        w.2.length ≤ 512 + 11 * r.record.resp.additional.length)

/-- The sizes hold in every state of the invariant whose packets fit the MTU and whose records
come from `responseFor`. -/
theorem writesWithin_of_inv {domain : Name} {s : SendState} (hi : Inv plain s)
    (hsize : ∀ x ∈ s.taken, x.2.length ≤ mtu)
    (hrec : ∀ r ∈ s.received, ∃ query, (responseFor query domain).1 = some r.resp) :
    WritesWithin s := by
  intro w hw
  obtain ⟨r, hr, buf, hbuf, rfl⟩ := hi.mem_writes hw
  refine ⟨r, hr, rfl, hbuf, fun q ps hq hb => ?_⟩
  have hv := hi.valid r hr
  simp only [Reply.Valid, hb] at hv
  obtain ⟨q', hq', -, hmsg⟩ := hv
  rw [hq, List.singleton_inj] at hq'
  subst hq'
  obtain ⟨query, hquery⟩ := hrec r.record (hi.record_mem hr)
  have hw1 : 1 ≤ wireLength q.name.labels := by unfold wireLength; omega
  have hw255 := q.name.wire_le
  have hcap := dnsMessageCapacity_eq q.name
  have hroot : (if q.name.labels = [] then 1 else 2) ≤ 2 := by split <;> omega
  have htxt := encodeRDataTXT_length (bundleBytes ps)
  have hfit : (bundleBytes ps).length ≤ dnsMessageCapacity q.name ∨
      dnsMessageCapacity q.name < (bundleBytes ps).length ∧ (bundleBytes ps).length ≤ 230 := by
    rcases hi.fits r hr q ps hq hb with h | ⟨p, hp, rfl, hlt⟩
    · exact .inl h
    · obtain ⟨x, hx, rfl⟩ := List.mem_map.mp hp
      have := hsize x hx
      rw [mtu_eq] at this
      simp only [bundleBytes_length, List.map_cons, List.map_nil, List.sum_cons, List.sum_nil,
        plain] at hlt ⊢
      exact .inr ⟨by omega, by omega⟩
  obtain ⟨buf', hok, hlen⟩ := @wireFormat_bundle _ q hq (responseFor_fst_bare hquery) (bundleBytes ps)
    (by omega)
  rw [hmsg, hok, Except.ok.injEq] at hbuf
  subst hbuf
  dsimp only [plain]
  exact ⟨by omega, fun _ => by omega⟩

/-- Every datagram the plain `sendLoop` writes, when every packet fits the MTU and every record
comes from `responseFor`, is the serialization of a reply; with a bundle it is within 512
bytes and 11 for an echoed OPT RR when the bundle fits the capacity, and within 2 bytes more
when it is one leftover packet too long for it. -/
theorem sendLoop_response_size (domain : Name) (es : List SendEvent) (s : SendState)
    (hrun : sendLoop init es = some s) (hsize : ∀ x ∈ s.taken, x.2.length ≤ mtu)
    (hrec : ∀ r ∈ s.received, ∃ query, (responseFor query domain).1 = some r.resp) :
    ∀ w ∈ s.writes, ∃ r ∈ s.replies, w.1 = r.record.addr ∧ wireFormat r.msg = .ok w.2 ∧
      ∀ q ps, r.record.resp.question = [q] → r.bundle = some ps →
        w.2.length ≤ 514 + 11 * r.record.resp.additional.length ∧
        ((bundleBytes ps).length ≤ dnsMessageCapacity q.name →
          w.2.length ≤ 512 + 11 * r.record.resp.additional.length) :=
  writesWithin_of_inv (inv_run hrun inv_init) hsize hrec

/-! ## A response over 512 bytes -/

/-- A TXT query, with an OPT RR, for a name of 255 bytes: 248 `A`s, the base32 encoding of 155
zero bytes, in labels of 63, 63, 63 and 59, under `t`. -/
def longQuery : Message :=
  ⟨0, 0, [⟨⟨[List.replicate 63 0x41, List.replicate 63 0x41, List.replicate 63 0x41,
    List.replicate 59 0x41, [0x74]], by decide, by decide⟩, rrTypeTXT, 1⟩], [],
    [⟨Name.root, rrTypeOPT, 4096, 0, []⟩]⟩

/-- The record `recvLoop` sends on the channel for `longQuery` from `addr`: NOERROR, AA, the
question, our OPT RR, and the ClientID of the first 8 of the zero bytes. -/
def longRecord (addr : Nat) : Record :=
  ⟨⟨0, 0x8400, longQuery.question, [], [optRR]⟩, ⟨addr⟩, .zero⟩

set_option maxRecDepth 4000 in
/-- A packet of 226 bytes, within the MTU, fills the bundle of a response to `longQuery` to its
capacity, 228 bytes; the response echoes the OPT RR, which `dnsMessageCapacity` does not
count, and takes 523 bytes. -/
theorem sendLoop_exceeds_512 :
    responseFor longQuery domainT = (some (longRecord 1).resp, (longRecord 1).clientID,
      List.replicate 147 0) ∧ (longRecord 1).resp.rcode = rcodeNoError ∧
    ∃ s, sendLoop init [.recv (longRecord 1), .packet (List.replicate 226 0), .timer, .write .ok] =
        some s ∧ (∀ x ∈ s.taken, x.2.length ≤ mtu) ∧ ∃ w ∈ s.writes, w.2.length = 523 := by
  refine ⟨by decide, by decide, ?_⟩
  obtain ⟨s, hs, hfits, h523⟩ := exists_of_any
    (o := sendLoop init [.recv (longRecord 1), .packet (List.replicate 226 0), .timer, .write .ok])
    (p := fun s => (∀ x ∈ s.taken, x.2.length ≤ 228) ∧ ∃ w ∈ s.writes, w.2.length = 523)
    (by decide)
  exact ⟨s, hs, mtu_eq ▸ hfits, h523⟩

set_option maxRecDepth 4000 in
/-- A 228-byte packet, the MTU, overflows the empty bundle of a response to `longQuery` and
opens the bundle of the next response, which takes 525 bytes: the bound is reached. -/
theorem sendLoop_response_size_leftover :
    ∃ s, sendLoop init [.recv (longRecord 1), .packet (List.replicate 228 0), .write .ok,
        .recv (longRecord 2), .timer, .write .ok] = some s ∧
      (∃ w ∈ s.writes, w.2.length = 525) ∧ WritesWithin s := by
  obtain ⟨s, hs, h525, hfits, hfrom⟩ := exists_of_any
    (o := sendLoop init [.recv (longRecord 1), .packet (List.replicate 228 0), .write .ok,
      .recv (longRecord 2), .timer, .write .ok])
    (p := fun s => (∃ w ∈ s.writes, w.2.length = 525) ∧ (∀ x ∈ s.taken, x.2.length ≤ 228) ∧
      ∀ x ∈ s.received, (responseFor longQuery domainT).1 = some x.resp)
    (by decide)
  exact ⟨s, hs, h525, sendLoop_response_size domainT _ s hs (mtu_eq ▸ hfits)
    fun x hx => ⟨longQuery, hfrom x hx⟩⟩

/-! ## `loop` -/

/-- `loop`, through a list of steps of its two goroutines from their start. -/
def loop (parse : List UInt8 → Option Message) (domain : Name) (es : List LoopEvent) :
    Option LoopState :=
  LoopState.run plain parse responseFor domain LoopState.init es

/-- In every run of the plain server whose packets fit the MTU, whatever the datagrams read and
however the goroutines interleave, every datagram written is a serialized response to its
record's address, within 514 bytes and 11 per echoed OPT RR, and within 512 and 11 per OPT RR
when its bundle fits the capacity of its question name. -/
theorem loop_writes_within (parse : List UInt8 → Option Message) (domain : Name)
    (es : List LoopEvent) (s : LoopState) (h : loop parse domain es = some s)
    (hsize : ∀ x ∈ s.send.taken, x.2.length ≤ mtu) : WritesWithin s.send :=
  writesWithin_of_inv (LoopState.inv_run h LoopState.inv_init).send hsize
    fun r hr => (LoopState.loop_fromQuery h r hr).imp fun _ h => h.1

set_option maxRecDepth 4000 in
/-- Two datagrams parsed as `longQuery`, and a packet of the MTU left over from the first
response for the second: a datagram of 525 bytes. -/
theorem loop_writes_within_leftover :
    ∃ s, loop (fun _ => some longQuery) domainT
        [.read (.datagram [] ⟨1⟩), .take, .packet (List.replicate 228 0), .write .ok,
          .read (.datagram [] ⟨2⟩), .take, .timer, .write .ok] = some s ∧
      (∀ x ∈ s.send.taken, x.2.length ≤ mtu) ∧ (∃ w ∈ s.send.writes, w.2.length = 525) ∧
      WritesWithin s.send := by
  obtain ⟨s, hs, hfits, h525⟩ := exists_of_any
    (o := loop (fun _ => some longQuery) domainT
      [.read (.datagram [] ⟨1⟩), .take, .packet (List.replicate 228 0), .write .ok,
        .read (.datagram [] ⟨2⟩), .take, .timer, .write .ok])
    (p := fun s => (∀ x ∈ s.send.taken, x.2.length ≤ 228) ∧ ∃ w ∈ s.send.writes, w.2.length = 525)
    (by decide)
  exact ⟨s, hs, mtu_eq ▸ hfits, h525, loop_writes_within _ _ _ s hs (mtu_eq ▸ hfits)⟩

end Dnstt.Plain
