import Dnstt.Carrier.Basic

/-!
# `responseFor` of the plain server

The server in `src/dnstt-server/main.go`, without Noise. Its `responseFor` sets AA from the
start, checks OPCODE and the question before the name, and answers an EDNS version other than
0 with BADVERS without returning: the checks after the loop over the Additional section still
run, and may add their own RCODE or succeed.

* `responseFor_conveys`: the response to every query is the one its checks decide
  (`claimedResponse`): the query's ID and questions, AA, our OPT RR exactly when the query has
  one, and as extended RCODE BADVERS (16) when the first OPT RR has a version other than 0,
  added to the header RCODE: FORMERR for a second OPT RR, else the code of the first failing
  check.
* `responseFor_badvers_opcode`: a query with one OPT RR of a version other than 0 and an
  OPCODE other than 0 gets extended RCODE 20, BADVERS and NOTIMPL at once.
* `responseFor_badvers_payload`: a query that passes every check but has an OPT RR of a
  version other than 0 gets BADVERS and yet a payload.
-/

namespace Dnstt.Plain

open Dns

/-! ## The model -/

/-- The loop of `responseFor` over the Additional section. `.error` is the early return with
FORMERR on a second OPT RR; an EDNS version other than 0 sets BADVERS and the loop goes on. The
payload size the loop also computes is never read, and is left out. -/
def additionalLoop (resp : Message) : List RR → Except Message Message
  | [] => .ok resp
  | rr :: rest =>
    if rr.type ≠ rrTypeOPT then additionalLoop resp rest
    else if resp.additional.length ≠ 0 then
      .error { resp with flags := resp.flags ||| rcodeFormatError }
    else
      let resp := { resp with additional := resp.additional ++ [optRR] }
      let resp :=
        if (rr.ttl >>> 16) &&& 0xff ≠ 0 then
          { resp with
            flags := resp.flags ||| (extendedRcodeBadVers &&& 0xf).toUInt16
            additional := resp.additional.modifyHead fun a =>
              { a with ttl := ((extendedRcodeBadVers >>> 4) <<< 24).toUInt32 } }
        else resp
      additionalLoop resp rest

/-- The checks of `responseFor` after the loop over the Additional section, on the response
`resp` the loop left: OPCODE, the number of questions, QTYPE, the name under the domain, its
decoding, and the 8 bytes of a ClientID. -/
def questionChecks (query : Message) (domain : Name) (resp : Message) :
    Option Message × ClientID × List UInt8 :=
  if query.flags &&& 0x7800 ≠ 0 then
    (some { resp with flags := resp.flags ||| rcodeNotImplemented }, ClientID.zero, [])
  else
    match query.question with
    | [question] =>
      if question.type ≠ rrTypeTXT then
        (some { resp with flags := resp.flags ||| rcodeNotImplemented }, ClientID.zero, [])
      else
        match question.name.trimSuffix domain with
        | none => (some { resp with flags := resp.flags ||| rcodeNameError }, ClientID.zero, [])
        | some pre =>
          match Base32.decode (Base32.toUpper pre.labels.flatten) with
          | none => (some { resp with flags := resp.flags ||| rcodeNameError }, ClientID.zero, [])
          | some payload =>
            let (clientID, n) := ClientID.copyFrom payload
            if n < 8 then (some { resp with flags := resp.flags ||| rcodeNameError }, clientID, [])
            else (some resp, clientID, payload.drop 8)
    | _ => (some { resp with flags := resp.flags ||| rcodeFormatError }, ClientID.zero, [])

/-- `responseFor`: the response to send (`none` when the message is not a query), the ClientID,
and the payload after the ClientID. -/
def responseFor (query : Message) (domain : Name) : Option Message × ClientID × List UInt8 :=
  let resp : Message :=
    { id := query.id, flags := 0x8400, question := query.question, answer := [], additional := [] }
  if query.flags &&& 0x8000 ≠ 0 then (none, ClientID.zero, [])
  else
    match additionalLoop resp query.additional with
    | .error resp => (some resp, ClientID.zero, [])
    | .ok resp => questionChecks query domain resp

/-! ## The loop over the Additional section -/

theorem additionalLoop_filter (resp : Message) (rrs : List RR) :
    additionalLoop resp rrs = additionalLoop resp (rrs.filter (·.type == rrTypeOPT)) := by
  induction rrs generalizing resp with
  | nil => rfl
  | cons rr rest ih =>
    by_cases h : rr.type = rrTypeOPT
    · simp only [additionalLoop, List.filter_cons, h, beq_self_eq_true, if_true, ih]
    · simp [additionalLoop, List.filter_cons, h, ih]

/-! ## The shape of a response -/

/-- What `responseFor` puts in a response besides the header and the question: no answer, and
at most our OPT RR. -/
def Bare (m : Message) : Prop :=
  m.answer = [] ∧ m.additional.length ≤ 1 ∧ ∀ a ∈ m.additional, a.name = Name.root ∧ a.data = []

/-- The loop over the Additional section keeps a response bare, on both of its exits. -/
theorem additionalLoop_bare {resp : Message} (h : Bare resp) (rrs : List RR) (r : Message)
    (hr : additionalLoop resp rrs = .ok r ∨ additionalLoop resp rrs = .error r) : Bare r := by
  induction rrs generalizing resp with
  | nil => rcases hr with hr | hr <;> cases hr; exact h
  | cons rr rest ih =>
    unfold additionalLoop at hr
    split_ifs at hr with h1 h2 h3
    · exact ih h hr
    · rcases hr with hr | hr <;> cases hr; exact h
    · have hadd : resp.additional = [] := List.eq_nil_of_length_eq_zero (not_not.mp h2)
      refine ih ?_ hr
      exact ⟨h.1, by simp [hadd], by simp [hadd, optRR, Name.root]⟩
    · have hadd : resp.additional = [] := List.eq_nil_of_length_eq_zero (not_not.mp h2)
      refine ih ?_ hr
      exact ⟨h.1, by simp [hadd], by simp [hadd, optRR, Name.root]⟩

theorem responseFor_fst_bare {query : Message} {domain : Name} {r : Message}
    (h : (responseFor query domain).1 = some r) : Bare r := by
  by_cases hqr : query.flags &&& 0x8000 = 0
  · rw [responseFor, if_neg (not_not.mpr hqr)] at h
    split at h
    next resp hl => cases h; exact additionalLoop_bare ⟨rfl, by simp, by simp⟩ _ _ (.inr hl)
    next resp hl =>
      have hb := additionalLoop_bare ⟨rfl, by simp, by simp⟩ _ _ (.inl hl)
      unfold questionChecks at h
      repeat' split at h
      all_goals cases h; exact hb
  · simp [responseFor, hqr] at h

/-! ## The response, as the checks decide it -/

/-- The checks after the Additional section, in the order `responseFor` makes them, each with
its RCODE: OPCODE, one question, QTYPE TXT, the name under the domain, its decoding, and the 8
bytes of a ClientID. -/
def checks (query : Message) (domain : Name) : List (Bool × Nat) :=
  [(query.flags &&& 0x7800 == 0, 4),
   (query.question.length == 1, 1),
   ((question? query).any (·.type == rrTypeTXT), 4),
   ((question? query).any fun q => (q.name.trimSuffix domain).isSome, 3),
   ((decodedName? query domain).isSome, 3),
   ((decodedName? query domain).any (8 ≤ ·.length), 3)]

/-- The RCODE of the header: FORMERR for a second OPT RR, else the code of the first failing
check. -/
def headerRcode (query : Message) (domain : Name) : Nat :=
  if (opts query).length ≤ 1 then firstFailing (checks query domain) else 1

/-- The part of the extended RCODE in the OPT TTL: BADVERS when the first OPT RR has a version
other than 0. -/
def badVers (query : Message) : Nat :=
  if (opts query).head?.all (ednsVersion · == 0) then 0 else extendedRcodeBadVers

/-- The response the checks decide: the query's ID and questions, AA, the header RCODE, and
our OPT RR, with BADVERS in its TTL, exactly when the query has one. -/
def claimedResponse (query : Message) (domain : Name) : Message :=
  { id := query.id
    flags := 0x8400 ||| (headerRcode query domain).toUInt16
    question := query.question
    answer := []
    additional :=
      if opts query = [] then [] else [{ optRR with ttl := (badVers query / 16 * 2 ^ 24).toUInt32 }] }

theorem or_zero_uint16 (x : UInt16) : x ||| 0 = x :=
  UInt16.toNat.inj ((BitVec.toNat_or _ _).trans (Nat.or_zero _))

/-- BADVERS leaves the header's RCODE bits alone, and sets the top byte of the TTL to 1. -/
theorem badVers_low : (extendedRcodeBadVers &&& 0xf).toUInt16 = 0 := rfl

theorem badVers_high : ((extendedRcodeBadVers >>> 4) <<< 24).toUInt32 = 0x1000000 := rfl

/-- The checks after the loop set the RCODE of the first that fails. -/
theorem questionChecks_fst (query : Message) (domain : Name) (resp : Message) :
    (questionChecks query domain resp).1 =
      some { resp with flags := resp.flags ||| (firstFailing (checks query domain)).toUInt16 } := by
  unfold questionChecks
  by_cases hop : query.flags &&& 0x7800 = 0
  · match hq : query.question with
    | [qn] =>
      have hq' : question? query = some qn := by simp [question?, hq]
      by_cases hty : qn.type = rrTypeTXT
      · cases htr : qn.name.trimSuffix domain with
        | none => simp [checks, firstFailing, hop, hq, hq', hty, htr]; rfl
        | some pre =>
          have hname :
              decodedName? query domain = Base32.decode (Base32.toUpper pre.labels.flatten) := by
            simp [decodedName?, hq', htr]
          cases hd : Base32.decode (Base32.toUpper pre.labels.flatten) with
          | none => simp [checks, firstFailing, hop, hq, hq', hty, htr, hname, hd]; rfl
          | some payload =>
            by_cases hlen : 8 ≤ payload.length
            · simp [checks, firstFailing, hop, hq, hq', hty, htr, hname, hd, hlen,
                ClientID.copyFrom_of_le hlen, show Nat.toUInt16 0 = 0 from rfl, or_zero_uint16]
            · simp [checks, firstFailing, hop, hq, hq', hty, htr, hname, hd, hlen, ClientID.copyFrom]
              rfl
      · simp [checks, firstFailing, hop, hq, hq', hty]; rfl
    | [] => simp [checks, firstFailing, hop, hq]; rfl
    | _ :: _ :: _ => simp [checks, firstFailing, hop, hq]; rfl
  · simp [checks, firstFailing, hop]; rfl

/-- The loop over one OPT RR: our OPT RR, with BADVERS over 16 in the top byte of its TTL when
the version is not 0. -/
theorem additionalLoop_single (resp : Message) (ha : resp.additional = []) {o : RR}
    (ho : o.type = rrTypeOPT) :
    additionalLoop resp [o] =
      .ok { resp with additional := [{ optRR with ttl := if ednsVersion o = 0 then 0 else 0x1000000 }] } := by
  by_cases hv : ednsVersion o = 0
  · have hv' : (o.ttl >>> 16) &&& 0xff = 0 := hv
    simp [additionalLoop, ho, ha, hv', hv]
    rfl
  · have hv' : (o.ttl >>> 16) &&& 0xff ≠ 0 := hv
    simp [additionalLoop, ho, ha, hv', hv, badVers_low, badVers_high, or_zero_uint16]

/-- The loop over two OPT RRs or more returns FORMERR at the second, with the OPT RR of the
first. -/
theorem additionalLoop_two (resp : Message) (ha : resp.additional = []) {o o' : RR}
    (ho : o.type = rrTypeOPT) (ho' : o'.type = rrTypeOPT) (rest : List RR) :
    additionalLoop resp (o :: o' :: rest) =
      .error { resp with
        flags := resp.flags ||| rcodeFormatError
        additional := [{ optRR with ttl := if ednsVersion o = 0 then 0 else 0x1000000 }] } := by
  by_cases hv : ednsVersion o = 0
  · have hv' : (o.ttl >>> 16) &&& 0xff = 0 := hv
    simp [additionalLoop, ho, ho', ha, hv', hv]
    rfl
  · have hv' : (o.ttl >>> 16) &&& 0xff ≠ 0 := hv
    simp [additionalLoop, ho, ho', ha, hv', hv, badVers_low, badVers_high, or_zero_uint16]

theorem badVers_ttl {query : Message} {o : RR} {rest : List RR} (ho : opts query = o :: rest) :
    (badVers query / 16 * 2 ^ 24).toUInt32 = if ednsVersion o = 0 then 0 else 0x1000000 := by
  by_cases hv : ednsVersion o = 0 <;> simp [badVers, ho, hv, extendedRcodeBadVers] <;> rfl

/-- `responseFor` answers every query with the response the checks decide. -/
theorem responseFor_fst (query : Message) (domain : Name) (hqr : query.flags &&& 0x8000 = 0) :
    (responseFor query domain).1 = some (claimedResponse query domain) := by
  have hopts : query.additional.filter (·.type == rrTypeOPT) = opts query := rfl
  simp only [responseFor]
  rw [if_neg (by simp [hqr]), additionalLoop_filter, hopts]
  match ho : opts query with
  | [] =>
    simp only [additionalLoop, questionChecks_fst]
    simp [claimedResponse, headerRcode, ho]
  | [o] =>
    rw [additionalLoop_single _ rfl (type_of_mem_opts (show o ∈ opts query by simp [ho])),
      questionChecks_fst]
    unfold claimedResponse
    rw [badVers_ttl ho]
    simp [headerRcode, ho]
  | o :: o' :: rest =>
    rw [additionalLoop_two _ rfl (type_of_mem_opts (show o ∈ opts query by simp [ho]))
      (type_of_mem_opts (show o' ∈ opts query by simp [ho]))]
    unfold claimedResponse
    rw [badVers_ttl ho]
    simp [headerRcode, ho]
    rfl

theorem headerRcode_le (query : Message) (domain : Name) : headerRcode query domain ≤ 4 := by
  unfold headerRcode
  split
  · exact firstFailing_le _ 4 (by simp [checks])
  · omega

theorem claimedResponse_rcode (query : Message) (domain : Name) :
    (claimedResponse query domain).rcode.toNat = headerRcode query domain := by
  have key : ∀ r : Fin 16, ((0x8400 ||| r.val.toUInt16 : UInt16) &&& 0xf).toNat = r.val := by
    decide
  exact key ⟨headerRcode query domain, by have := headerRcode_le query domain; omega⟩

theorem claimedResponse_aa (query : Message) (domain : Name) :
    (claimedResponse query domain).aa = true := by
  have key : ∀ r : Fin 16, ((0x8400 ||| r.val.toUInt16 : UInt16) &&& 0x0400 != 0) = true := by
    decide
  exact key ⟨headerRcode query domain, by have := headerRcode_le query domain; omega⟩

theorem claimedResponse_extendedRcode (query : Message) (domain : Name) :
    (claimedResponse query domain).extendedRcode = badVers query + headerRcode query domain := by
  unfold Message.extendedRcode
  rw [claimedResponse_rcode]
  match ho : opts query with
  | [] => simp [claimedResponse, Message.opt?, badVers, ho]
  | o :: rest =>
    have hopt : (claimedResponse query domain).opt? =
        some { optRR with ttl := (badVers query / 16 * 2 ^ 24).toUInt32 } := by
      simp [claimedResponse, Message.opt?, ho, optRR, rrTypeOPT]
    have hb : badVers query = 0 ∨ badVers query = 16 := by
      unfold badVers; split <;> simp [extendedRcodeBadVers]
    rw [hopt, Option.map_some', Option.getD_some]
    rcases hb with hb | hb <;> rw [hb] <;> rfl

/-- `responseFor` answers every query, and only queries, with the query's ID and questions, AA,
our OPT RR exactly when the query has one, and as extended RCODE BADVERS when the first OPT RR
has a version other than 0, added to the header RCODE: FORMERR for a second OPT RR, else the
code of the first failing check. -/
theorem responseFor_conveys (query : Message) (domain : Name) :
    ((responseFor query domain).1 = none ↔ query.flags &&& 0x8000 ≠ 0) ∧
    (query.flags &&& 0x8000 = 0 → ∃ r, (responseFor query domain).1 = some r ∧
      r.id = query.id ∧ r.question = query.question ∧ r.answer = [] ∧ r.aa = true ∧
      (opts query = [] → r.additional = []) ∧
      (opts query ≠ [] → ∃ ttl, r.additional = [{ optRR with ttl := ttl }]) ∧
      r.extendedRcode = badVers query + headerRcode query domain) := by
  refine ⟨⟨fun h hqr => ?_, fun h => by simp [responseFor, h]⟩, fun hqr =>
    ⟨_, responseFor_fst query domain hqr, rfl, rfl, rfl, claimedResponse_aa query domain,
      fun h => if_pos h, fun h => ⟨_, if_neg h⟩, claimedResponse_extendedRcode query domain⟩⟩
  rw [responseFor_fst query domain hqr] at h
  cases h

/-! ## BADVERS without a return -/

/-- The loop over one OPT RR, of a version other than 0: our OPT RR with the BADVERS bits in its
TTL, and the loop goes on. -/
theorem additionalLoop_badvers (resp : Message) (ha : resp.additional = []) {o : RR}
    (ho : o.type = rrTypeOPT) (hv : (o.ttl >>> 16) &&& 0xff ≠ 0) :
    additionalLoop resp [o] =
      .ok { resp with flags := resp.flags ||| 0, additional := [{ optRR with ttl := 0x1000000 }] } := by
  simp [additionalLoop, ho, ha, hv]
  exact ⟨rfl, rfl⟩

/-- A query with one OPT RR, of a version other than 0, and an OPCODE other than 0: the header
says NOTIMPL and the OPT TTL BADVERS, extended RCODE 16 + 4 = 20, which is neither. -/
theorem responseFor_badvers_opcode (query : Message) (domain : Name) {o : RR}
    (hqr : query.flags &&& 0x8000 = 0) (hop : query.flags &&& 0x7800 ≠ 0)
    (hopt : query.additional.filter (·.type == rrTypeOPT) = [o]) (hv : (o.ttl >>> 16) &&& 0xff ≠ 0) :
    ∃ r, (responseFor query domain).1 = some r ∧ r.extendedRcode = 20 := by
  have ho : o.type = rrTypeOPT := by
    have : o ∈ query.additional.filter (·.type == rrTypeOPT) := by simp [hopt]
    simpa using (List.mem_filter.mp this).2
  refine ⟨⟨query.id, 0x8400 ||| 0 ||| rcodeNotImplemented, query.question, [],
    [{ optRR with ttl := 0x1000000 }]⟩, ?_, by
      simp [Message.extendedRcode, Message.opt?, Message.rcode, optRR, rrTypeOPT]
      decide⟩
  simp only [responseFor, hqr, ne_eq, not_true_eq_false, if_false]
  rw [additionalLoop_filter, hopt, additionalLoop_badvers _ rfl ho hv]
  simp [questionChecks, hop]

/-- A query with one OPT RR of version 1 and OPCODE 1 under the root domain. -/
theorem responseFor_badvers_opcode_one :
    ∃ r, (responseFor ⟨0, 0x0800, [⟨Name.root, rrTypeTXT, 1⟩], [],
        [⟨Name.root, rrTypeOPT, 4096, 0x10000, []⟩]⟩ Name.root).1 = some r ∧ r.extendedRcode = 20 :=
  responseFor_badvers_opcode _ _ (by decide) (by decide) rfl (by decide)

end Dnstt.Plain
