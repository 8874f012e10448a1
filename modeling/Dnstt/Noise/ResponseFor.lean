import Dnstt.Carrier.Basic

/-!
# `responseFor` of the Noise server

The server in `src/unnamed/part_000`, which the specification documents. `responseFor` checks a
query, builds the skeleton of its response and extracts the ClientID and the payload the query
name carries.

* `responseFor_fst`: for every query (QR = 0) the response is `claimedResponse`: the
  query's ID and questions, our OPT RR exactly when the query has one, AA exactly when the
  header checks pass and the name is under the domain, and as extended RCODE the code of the
  first failing check in the order of `checks` (`responseFor_checks_in_order`).
* `responseFor_payload`: the ClientID and payload; the payload is empty unless every check
  passes, and then it is the decoded name after its first 8 bytes, whatever the split of the
  name into labels and the case of its letters (`responseFor_decodes_any_split`).
-/

namespace Dnstt.Noise

open Dns

def maxUDPPayload : Nat := 1280 - 40 - 8

def maxEncodedPayload : Nat := 930

/-! ## The model -/

/-- The loop of `responseFor` over the Additional section. `.error` is an early return, with
FORMERR on a second OPT RR or BADVERS on an EDNS version other than 0; `.ok` carries the
response, with our OPT RR if the query had one, and the payload size the OPT RR advertised. -/
def additionalLoop (resp : Message) (payloadSize : Nat) : List RR → Except Message (Message × Nat)
  | [] => .ok (resp, payloadSize)
  | rr :: rest =>
    if rr.type ≠ rrTypeOPT then additionalLoop resp payloadSize rest
    else if resp.additional.length ≠ 0 then
      .error { resp with flags := resp.flags ||| rcodeFormatError }
    else
      let resp := { resp with additional := resp.additional ++ [optRR] }
      if (rr.ttl >>> 16) &&& 0xff ≠ 0 then
        .error { resp with
          flags := resp.flags ||| (extendedRcodeBadVers &&& 0xf).toUInt16
          additional := resp.additional.modifyHead fun a =>
            { a with ttl := ((extendedRcodeBadVers >>> 4) <<< 24).toUInt32 } }
      else additionalLoop resp rr.cls.toNat rest

/-- The part of `responseFor` after the loop over the Additional section: the checks of the
question, the name and the payload size. -/
def questionChecks (query : Message) (domain : Name) (resp : Message) (payloadSize : Nat) :
    Option Message × ClientID × List UInt8 :=
  match query.question with
  | [question] =>
    -- AA is set exactly when the suffix matches, so the test of the AA bit is this match.
    match question.name.trimSuffix domain with
    | none => (some { resp with flags := resp.flags ||| rcodeNameError }, ClientID.zero, [])
    | some pre =>
      let resp := { resp with flags := resp.flags ||| 0x0400 }
      if query.flags &&& 0x7800 ≠ 0 then
        (some { resp with flags := resp.flags ||| rcodeNotImplemented }, ClientID.zero, [])
      else if question.type ≠ rrTypeTXT then
        (some { resp with flags := resp.flags ||| rcodeNameError }, ClientID.zero, [])
      else
        match Base32.decode (Base32.toUpper pre.labels.flatten) with
        | none => (some { resp with flags := resp.flags ||| rcodeNameError }, ClientID.zero, [])
        | some payload =>
          let (clientID, n) := ClientID.copyFrom payload
          if n < 8 then (some { resp with flags := resp.flags ||| rcodeNameError }, clientID, [])
          else if payloadSize < maxUDPPayload then
            (some { resp with flags := resp.flags ||| rcodeFormatError }, clientID, [])
          else (some resp, clientID, payload.drop 8)
  | _ => (some { resp with flags := resp.flags ||| rcodeFormatError }, ClientID.zero, [])

/-- `responseFor`: the response to send (`none` when the message is not a query), the ClientID,
and the payload after the ClientID. -/
def responseFor (query : Message) (domain : Name) : Option Message × ClientID × List UInt8 :=
  let resp : Message :=
    { id := query.id, flags := 0x8000, question := query.question, answer := [], additional := [] }
  if query.flags &&& 0x8000 ≠ 0 then (none, ClientID.zero, [])
  else
    match additionalLoop resp 0 query.additional with
    | .error resp => (some resp, ClientID.zero, [])
    | .ok (resp, payloadSize) =>
      questionChecks query domain resp (if payloadSize < 512 then 512 else payloadSize)

/-! ## The checks, as the specification orders them -/

/-- The requestor's UDP payload size: the class of its OPT RR, counted as 512 when smaller or
when there is no OPT RR. -/
def advertisedSize (query : Message) : Nat :=
  match opts query with
  | o :: _ => max 512 o.cls.toNat
  | [] => 512

/-- The checks after the EDNS ones, for a requestor payload size, each with the extended RCODE
its failure answers. -/
def laterChecks (query : Message) (domain : Name) (payloadSize : Nat) : List (Bool × Nat) :=
  [(query.question.length == 1, 1),
   ((question? query).any fun q => (q.name.trimSuffix domain).isSome, 3),
   (query.flags &&& 0x7800 == 0, 4),
   ((question? query).any (·.type == rrTypeTXT), 3),
   ((decodedName? query domain).isSome, 3),
   ((decodedName? query domain).any (8 ≤ ·.length), 3),
   (decide (maxUDPPayload ≤ payloadSize), 1)]

/-- The checks of `responseFor` in the order of the specification: the version of the first OPT
RR, a second OPT RR, then `laterChecks` with the advertised payload size. -/
def checks (query : Message) (domain : Name) : List (Bool × Nat) :=
  ((opts query).head?.all fun o => ednsVersion o == 0, 16) ::
  (decide ((opts query).length ≤ 1), 1) :: laterChecks query domain (advertisedSize query)

/-- The header checks pass and the question name is under the domain. -/
def authoritative (query : Message) (domain : Name) : Bool :=
  ((checks query domain).take 4).all (·.1)

/-- The flags of a response: QR, AA when `aa`, and the low four bits of an extended RCODE. -/
def responseFlags (aa : Bool) (code : Nat) : UInt16 :=
  0x8000 ||| (if aa then 0x0400 else 0) ||| (code % 16).toUInt16

/-- The response the specification describes: ID and questions of the query, AA as
`authoritative` says, the extended RCODE of `firstFailing` split between the header and the
TTL of our OPT RR, which is there exactly when the query has one. -/
def claimedResponse (query : Message) (domain : Name) : Message :=
  let code := firstFailing (checks query domain)
  { id := query.id
    flags := responseFlags (authoritative query domain) code
    question := query.question
    answer := []
    additional := if opts query = [] then [] else [{ optRR with ttl := (code / 16 * 2 ^ 24).toUInt32 }] }

/-- The conditions under which `responseFor` extracts a payload, with `d` the decoded name: a
query with OPCODE 0, one TXT question whose name ends in the domain (up to ASCII case, as
`trimSuffix` matches it) after labels `pre` that decode to `d`, one OPT RR of version 0
advertising at least `maxUDPPayload`, and at least 8 decoded bytes. -/
structure Accepts (query : Message) (domain : Name) (d : List UInt8) : Prop where
  isQuery : query.flags &&& 0x8000 = 0
  opcode : query.flags &&& 0x7800 = 0
  question : ∃ qn, query.question = [qn] ∧ qn.type = rrTypeTXT ∧
    ∃ pre, qn.name.trimSuffix domain = some pre ∧
      Base32.decode (Base32.toUpper pre.labels.flatten) = some d
  opt : ∃ o, opts query = [o] ∧ ednsVersion o = 0 ∧ maxUDPPayload ≤ o.cls.toNat
  long : 8 ≤ d.length

/-! ## The model against the checks -/

theorem additionalLoop_filter (resp : Message) (payloadSize : Nat) (rrs : List RR) :
    additionalLoop resp payloadSize rrs =
      additionalLoop resp payloadSize (rrs.filter (·.type == rrTypeOPT)) := by
  induction rrs generalizing resp payloadSize with
  | nil => rfl
  | cons rr rest ih =>
    by_cases h : rr.type = rrTypeOPT
    · simp only [additionalLoop, List.filter_cons, h, beq_self_eq_true, if_true, ih]
    · simp [additionalLoop, List.filter_cons, h, ih]

/-- The loop at the first OPT RR: BADVERS, or our OPT RR and the advertised size. -/
theorem additionalLoop_first_opt (resp : Message) (ps : Nat) {rr : RR} (rest : List RR)
    (ht : rr.type = rrTypeOPT) (ha : resp.additional = []) :
    additionalLoop resp ps (rr :: rest) =
      if ednsVersion rr ≠ 0 then
        .error { resp with flags := resp.flags ||| 0, additional := [{ optRR with ttl := 0x1000000 }] }
      else additionalLoop { resp with additional := [optRR] } rr.cls.toNat rest := by
  simp [additionalLoop, ht, ha, ednsVersion]
  rfl

/-- The loop at a second OPT RR: FORMERR. -/
theorem additionalLoop_second_opt (resp : Message) (ps : Nat) {rr : RR} (rest : List RR)
    (ht : rr.type = rrTypeOPT) (ha : resp.additional ≠ []) :
    additionalLoop resp ps (rr :: rest) =
      .error { resp with flags := resp.flags ||| rcodeFormatError } := by
  simp [additionalLoop, ht, ha]

theorem questionChecks_fst (query : Message) (domain : Name) (resp : Message)
    (hf : resp.flags = 0x8000) (ps : Nat) :
    (questionChecks query domain resp ps).1 =
      some { resp with
        flags := responseFlags (((laterChecks query domain ps).take 2).all (·.1))
          (firstFailing (laterChecks query domain ps)) } := by
  unfold questionChecks
  split
  next qn hq =>
    have hq' : question? query = some qn := by simp [question?, hq]
    cases ht : qn.name.trimSuffix domain with
    | none => simp [laterChecks, firstFailing, hq, hq', ht, hf]; rfl
    | some pre =>
      have hdn : decodedName? query domain = Base32.decode (Base32.toUpper pre.labels.flatten) := by
        simp [decodedName?, hq', ht]
      by_cases hop : query.flags &&& 0x7800 = 0
      · by_cases hty : qn.type = rrTypeTXT
        · cases hd : Base32.decode (Base32.toUpper pre.labels.flatten) with
          | none => simp [laterChecks, firstFailing, hq, hq', ht, hf, hop, hty, hdn, hd]; rfl
          | some payload =>
            by_cases hn : 8 ≤ payload.length
            · by_cases hs : maxUDPPayload ≤ ps
              · simp [laterChecks, firstFailing, hq, hq', ht, hf, hop, hty, hdn, hd, hn, hs,
                  not_lt.mpr hs, ClientID.copyFrom_of_le hn]; rfl
              · simp [laterChecks, firstFailing, hq, hq', ht, hf, hop, hty, hdn, hd, hn, hs,
                  not_le.mp hs, ClientID.copyFrom_of_le hn]; rfl
            · simp [laterChecks, firstFailing, hq, hq', ht, hf, hop, hty, hdn, hd, hn,
                ClientID.copyFrom]; rfl
        · simp [laterChecks, firstFailing, hq, hq', ht, hf, hop, hty]; rfl
      · simp [laterChecks, firstFailing, hq, hq', ht, hf, hop]; rfl
  next hq =>
    have hq' : question? query = none := by
      unfold question?; split
      · next h => exact absurd h (hq _)
      · rfl
    have hlen : query.question.length ≠ 1 := by
      intro h; obtain ⟨qn, hqn⟩ := List.length_eq_one.mp h; exact hq qn hqn
    simp [laterChecks, firstFailing, hq', hlen, hf]; rfl

/-- The code of the first failing check is one of the checks' codes, or NOERROR. -/
theorem firstFailing_laterChecks_lt (query : Message) (domain : Name) (ps : Nat) :
    firstFailing (laterChecks query domain ps) < 16 :=
  Nat.lt_of_le_of_lt (firstFailing_le _ 4 (by simp [laterChecks])) (by decide)

/-- Clamping the payload size at 512 gives the advertised size. -/
theorem clamp_eq_max (c : Nat) : (if c < 512 then 512 else c) = max 512 c := by
  split <;> omega

theorem checks_of_opts_nil (domain : Name) {query : Message} (h : opts query = []) :
    checks query domain = (true, 16) :: (true, 1) :: laterChecks query domain 512 := by
  simp [checks, advertisedSize, h]

theorem checks_of_opts_single (domain : Name) {query : Message} {o : RR} (h : opts query = [o])
    (hv : ednsVersion o = 0) :
    checks query domain =
      (true, 16) :: (true, 1) :: laterChecks query domain (max 512 o.cls.toNat) := by
  simp [checks, advertisedSize, h, hv]

theorem checks_of_opts_two (domain : Name) {query : Message} {o o' : RR} {rest : List RR}
    (h : opts query = o :: o' :: rest) (hv : ednsVersion o = 0) :
    ∃ cs, checks query domain = (true, 16) :: (false, 1) :: cs := by
  simp [checks, h, hv]

theorem checks_of_version_ne (domain : Name) {query : Message} {o : RR} {rest : List RR}
    (h : opts query = o :: rest) (hv : ednsVersion o ≠ 0) :
    ∃ cs, checks query domain = (false, 16) :: cs := by
  simp [checks, h, hv]

theorem responseFor_fst (query : Message) (domain : Name) (hqr : query.flags &&& 0x8000 = 0) :
    (responseFor query domain).1 = some (claimedResponse query domain) := by
  have hopts : query.additional.filter (·.type == rrTypeOPT) = opts query := rfl
  simp only [responseFor]
  rw [if_neg (by simp [hqr]), additionalLoop_filter, hopts]
  cases h : opts query with
  | nil =>
    simp only [additionalLoop]
    rw [questionChecks_fst _ _ _ rfl]
    simp [claimedResponse, authoritative, checks_of_opts_nil domain h, h]
  | cons o rest =>
    have ho : o.type = rrTypeOPT := type_of_mem_opts (show o ∈ opts query by simp [h])
    rw [additionalLoop_first_opt _ _ _ ho rfl]
    by_cases hv : ednsVersion o = 0
    · rw [if_neg (not_not_intro hv)]
      cases rest with
      | nil =>
        have hc := Nat.div_eq_of_lt (firstFailing_laterChecks_lt query domain (max 512 o.cls.toNat))
        simp only [additionalLoop, clamp_eq_max]
        rw [questionChecks_fst _ _ _ rfl]
        simp [claimedResponse, authoritative, checks_of_opts_single domain h hv, h, hc]
        rfl
      | cons o' rest =>
        have ho' : o'.type = rrTypeOPT := type_of_mem_opts (show o' ∈ opts query by simp [h])
        obtain ⟨cs, hcs⟩ := checks_of_opts_two domain h hv
        rw [additionalLoop_second_opt _ _ _ ho' (List.cons_ne_nil _ _)]
        simp [claimedResponse, authoritative, hcs, h]
        exact ⟨rfl, rfl⟩
    · obtain ⟨cs, hcs⟩ := checks_of_version_ne domain h hv
      rw [if_pos hv]
      simp [claimedResponse, authoritative, hcs, h]
      exact ⟨rfl, rfl⟩

/-! ## The ClientID and the payload -/

theorem questionChecks_snd (query : Message) (domain : Name) (resp : Message) (ps : Nat) :
    (questionChecks query domain resp ps).2.2 = [] ∨
      ∃ d, query.flags &&& 0x7800 = 0 ∧
        (∃ qn, query.question = [qn] ∧ qn.type = rrTypeTXT ∧
          ∃ pre, qn.name.trimSuffix domain = some pre ∧
            Base32.decode (Base32.toUpper pre.labels.flatten) = some d) ∧
        8 ≤ d.length ∧ maxUDPPayload ≤ ps ∧
        (questionChecks query domain resp ps).2 = ((ClientID.copyFrom d).1, d.drop 8) := by
  unfold questionChecks
  split
  next qn hq =>
    cases ht : qn.name.trimSuffix domain with
    | none => exact .inl rfl
    | some pre =>
      by_cases hop : query.flags &&& 0x7800 = 0
      · by_cases hty : qn.type = rrTypeTXT
        · cases hd : Base32.decode (Base32.toUpper pre.labels.flatten) with
          | none => left; simp [hop, hty, hd]
          | some d =>
            by_cases hn : 8 ≤ d.length
            · by_cases hs : maxUDPPayload ≤ ps
              · right
                refine ⟨d, hop, ⟨qn, hq, hty, pre, ht, hd⟩, hn, hs, ?_⟩
                simp [hop, hty, hd, ClientID.copyFrom_of_le hn, not_lt.mpr hs]
              · left; simp [hop, hty, hd, ClientID.copyFrom_of_le hn, not_le.mp hs]
            · left; simp [hop, hty, hd, ClientID.copyFrom, not_le.mp hn]
        · left; simp [hop, hty]
      · left; simp [hop]
  next => exact .inl rfl

theorem questionChecks_snd_of_accepts {query : Message} {domain : Name} {d : List UInt8}
    (h : Accepts query domain d) (resp : Message) {ps : Nat} (hs : maxUDPPayload ≤ ps) :
    (questionChecks query domain resp ps).2 = ((ClientID.copyFrom d).1, d.drop 8) := by
  obtain ⟨qn, hq, hty, pre, hp, hd⟩ := h.question
  simp [questionChecks, hq, hp, h.opcode, hty, hd, ClientID.copyFrom_of_le h.long,
    not_lt.mpr hs]

/-- On an accepted query `responseFor` returns the first 8 decoded bytes as the ClientID and the
rest as the payload. -/
theorem responseFor_snd_of_accepts {query : Message} {domain : Name} {d : List UInt8}
    (h : Accepts query domain d) :
    (responseFor query domain).2 = ((ClientID.copyFrom d).1, d.drop 8) := by
  obtain ⟨o, ho, hv, hs⟩ := h.opt
  have hot : o.type = rrTypeOPT := type_of_mem_opts (show o ∈ opts query by simp [ho])
  have hopts : query.additional.filter (·.type == rrTypeOPT) = opts query := rfl
  simp only [responseFor]
  rw [if_neg (by simp [h.isQuery]), additionalLoop_filter, hopts, ho,
    additionalLoop_first_opt _ _ _ hot rfl, if_neg (not_not_intro hv)]
  simp only [additionalLoop, clamp_eq_max]
  exact questionChecks_snd_of_accepts h _ (hs.trans (Nat.le_max_right _ _))

/-- The payload is empty unless the query is accepted. -/
theorem responseFor_payload_nil_or_accepts (query : Message) (domain : Name) :
    (responseFor query domain).2.2 = [] ∨ ∃ d, Accepts query domain d := by
  by_cases hqr : query.flags &&& 0x8000 = 0
  · have hopts : query.additional.filter (·.type == rrTypeOPT) = opts query := rfl
    simp only [responseFor]
    rw [if_neg (by simp [hqr]), additionalLoop_filter, hopts]
    cases h : opts query with
    | nil =>
      simp only [additionalLoop]
      rcases questionChecks_snd query domain _ _ with h0 | ⟨d, -, -, -, hs, -⟩
      · exact .inl h0
      · exact absurd hs (by decide)
    | cons o rest =>
      have ho : o.type = rrTypeOPT := type_of_mem_opts (show o ∈ opts query by simp [h])
      rw [additionalLoop_first_opt _ _ _ ho rfl]
      by_cases hv : ednsVersion o = 0
      · rw [if_neg (not_not_intro hv)]
        cases rest with
        | nil =>
          simp only [additionalLoop, clamp_eq_max]
          rcases questionChecks_snd query domain _ _ with h0 | ⟨d, hop, hq, hn, hs, -⟩
          · exact .inl h0
          · have : maxUDPPayload ≤ o.cls.toNat := by
              simp only [maxUDPPayload] at hs ⊢; omega
            exact .inr ⟨d, hqr, hop, hq, ⟨o, h, hv, this⟩, hn⟩
        | cons o' rest =>
          have ho' : o'.type = rrTypeOPT := type_of_mem_opts (show o' ∈ opts query by simp [h])
          rw [additionalLoop_second_opt _ _ _ ho' (List.cons_ne_nil _ _)]
          exact .inl rfl
      · rw [if_pos hv]
        exact .inl rfl
  · left
    simp [responseFor, hqr]

/-- `responseFor` returns a payload only for an accepted query, and then the ClientID and payload
of its decoded name. -/
theorem responseFor_payload (query : Message) (domain : Name) :
    (responseFor query domain).2.2 = [] ∨
      ∃ d, Accepts query domain d ∧
        (responseFor query domain).2 = ((ClientID.copyFrom d).1, d.drop 8) := by
  rcases responseFor_payload_nil_or_accepts query domain with h | ⟨d, hd⟩
  · exact .inl h
  · exact .inr ⟨d, hd, responseFor_snd_of_accepts hd⟩

/-! ## The response against the specification -/

theorem responseFlags_aa (aa : Bool) (code : Nat) : (responseFlags aa code &&& 0x0400 != 0) = aa := by
  have key : ∀ aa : Bool, ∀ r : Fin 16,
      ((0x8000 ||| (if aa then 0x0400 else 0) ||| r.val.toUInt16 : UInt16) &&& 0x0400 != 0) = aa := by
    decide
  exact key aa ⟨code % 16, Nat.mod_lt _ (by omega)⟩

theorem responseFlags_rcode (aa : Bool) (code : Nat) :
    (responseFlags aa code &&& 0xf).toNat = code % 16 := by
  have key : ∀ aa : Bool, ∀ r : Fin 16,
      ((0x8000 ||| (if aa then 0x0400 else 0) ||| r.val.toUInt16 : UInt16) &&& 0xf).toNat = r.val := by
    decide
  exact key aa ⟨code % 16, Nat.mod_lt _ (by omega)⟩

theorem firstFailing_checks_le (query : Message) (domain : Name) :
    firstFailing (checks query domain) ≤ 16 :=
  firstFailing_le _ 16 (by simp [checks, laterChecks])

/-- The top byte of our OPT RR's TTL is the extended RCODE over 16. -/
theorem ttl_div (code : Nat) (h : code ≤ 16) :
    (code / 16 * 2 ^ 24).toUInt32.toNat / 2 ^ 24 = code / 16 := by
  have : code / 16 * 2 ^ 24 < UInt32.size := by simp only [UInt32.size]; omega
  rw [show Nat.toUInt32 (code / 16 * 2 ^ 24) = UInt32.ofNat (code / 16 * 2 ^ 24) from rfl,
    UInt32.toNat_ofNat_of_lt this, Nat.mul_div_cancel _ (by decide)]

theorem claimedResponse_extendedRcode (query : Message) (domain : Name) :
    (claimedResponse query domain).extendedRcode = firstFailing (checks query domain) := by
  have hr : (claimedResponse query domain).rcode.toNat = firstFailing (checks query domain) % 16 :=
    responseFlags_rcode _ _
  have hle := firstFailing_checks_le query domain
  unfold Message.extendedRcode
  rw [hr]
  by_cases h : opts query = []
  · have := firstFailing_laterChecks_lt query domain 512
    rw [checks_of_opts_nil domain h] at hle ⊢
    simp [claimedResponse, Message.opt?, h]
    omega
  · have hopt : (claimedResponse query domain).opt? =
        some { optRR with ttl := (firstFailing (checks query domain) / 16 * 2 ^ 24).toUInt32 } := by
      simp [claimedResponse, Message.opt?, h, optRR, rrTypeOPT]
    rw [hopt, Option.map_some', Option.getD_some, ttl_div _ hle]
    omega

theorem responseFlags_tc (aa : Bool) (code : Nat) :
    (responseFlags aa code >>> 8).toUInt8 &&& 0x02 = 0 := by
  have key : ∀ aa : Bool, ∀ r : Fin 16,
      ((0x8000 ||| (if aa then 0x0400 else 0) ||| r.val.toUInt16 : UInt16) >>> 8).toUInt8 &&& 0x02 =
        0 := by
    decide
  exact key aa ⟨code % 16, Nat.mod_lt _ (by omega)⟩

/-- What `sendLoop` relies on in a response: an empty Answer section, at most one additional
RR, with the root name and no data, and the TC bit clear. -/
theorem responseFor_fst_shape {query : Message} {domain : Name} {r : Message}
    (h : (responseFor query domain).1 = some r) :
    r.answer = [] ∧ r.additional.length ≤ 1 ∧ (∀ a ∈ r.additional, a.name = Name.root ∧ a.data = []) ∧
      (r.flags >>> 8).toUInt8 &&& 0x02 = 0 := by
  by_cases hqr : query.flags &&& 0x8000 = 0
  · rw [responseFor_fst query domain hqr, Option.some.injEq] at h
    subst h
    refine ⟨rfl, ?_, ?_, responseFlags_tc _ _⟩ <;> by_cases ho : opts query = [] <;>
      simp [claimedResponse, ho, optRR]
  · simp [responseFor, hqr] at h

theorem responseFor_fst_header {query : Message} {domain : Name} {r : Message}
    (h : (responseFor query domain).1 = some r) : r.id = query.id ∧ r.question = query.question := by
  by_cases hqr : query.flags &&& 0x8000 = 0
  · rw [responseFor_fst query domain hqr, Option.some.injEq] at h
    subst h
    exact ⟨rfl, rfl⟩
  · simp [responseFor, hqr] at h

/-- `responseFor` answers every query, and only queries, with the query's ID and questions, our
OPT RR exactly when the query has one, AA when the header checks pass and the name is under
the domain, and as extended RCODE the code of the first failing check. -/
theorem responseFor_checks_in_order (query : Message) (domain : Name) :
    ((responseFor query domain).1 = none ↔ query.flags &&& 0x8000 ≠ 0) ∧
      (query.flags &&& 0x8000 = 0 → ∃ r, (responseFor query domain).1 = some r ∧
        r.id = query.id ∧ r.question = query.question ∧
        (opts query ≠ [] → ∃ ttl, r.additional = [{ optRR with ttl := ttl }]) ∧
        (opts query = [] → r.additional = []) ∧
        r.aa = authoritative query domain ∧
        r.extendedRcode = firstFailing (checks query domain)) := by
  refine ⟨⟨fun h hqr => ?_, fun h => by simp [responseFor, h]⟩, fun hqr =>
    ⟨_, responseFor_fst query domain hqr, rfl, rfl, fun h => ⟨_, if_neg h⟩, fun h => if_pos h,
      responseFlags_aa _ _,
      claimedResponse_extendedRcode query domain⟩⟩
  rw [responseFor_fst query domain hqr] at h
  cases h

/-- Whatever the split of the encoded payload into labels and the case of each letter, an
accepted query yields the first 8 bytes as the ClientID and the rest as the payload. -/
theorem responseFor_decodes_any_split (query : Message) (domain : Name) (d : List UInt8)
    (hd : 8 ≤ d.length) (qn : Question) (pre : List (List UInt8)) (hq : query.question = [qn])
    (hname : qn.name.labels = pre ++ domain.labels)
    (hcase : List.Forall₂ Base32.CaseOf pre.flatten (Base32.encode d))
    (hqr : query.flags &&& 0x8000 = 0) (hop : query.flags &&& 0x7800 = 0)
    (hty : qn.type = rrTypeTXT) (o : RR) (ho : opts query = [o]) (hv : ednsVersion o = 0)
    (hs : maxUDPPayload ≤ o.cls.toNat) :
    (responseFor query domain).2.1.bytes = d.take 8 ∧ (responseFor query domain).2.2 = d.drop 8 := by
  obtain ⟨p, hp, rfl⟩ := Name.trimSuffix_append hname
  have hacc : Accepts query domain d :=
    ⟨hqr, hop, ⟨qn, hq, hty, p, hp, by rw [Base32.toUpper_of_caseOf hcase, Base32.decode_encode]⟩,
      ⟨o, ho, hv, hs⟩, hd⟩
  rw [responseFor_snd_of_accepts hacc, ClientID.copyFrom_of_le hd]
  exact ⟨rfl, rfl⟩

theorem responseFor_decodes_mixed_case :
    (responseFor
        ⟨0, 0, [⟨⟨[[0x61, 0x41, 0x61, 0x41, 0x61, 0x41], [0x61, 0x41, 0x61, 0x41, 0x61, 0x41, 0x61]],
          by decide, by decide⟩, rrTypeTXT, 1⟩], [], [⟨Name.root, rrTypeOPT, 4096, 0, []⟩]⟩
        Name.root).2.1.bytes = List.replicate 8 0 ∧
    (responseFor
        ⟨0, 0, [⟨⟨[[0x61, 0x41, 0x61, 0x41, 0x61, 0x41], [0x61, 0x41, 0x61, 0x41, 0x61, 0x41, 0x61]],
          by decide, by decide⟩, rrTypeTXT, 1⟩], [], [⟨Name.root, rrTypeOPT, 4096, 0, []⟩]⟩
        Name.root).2.2 = [] :=
  responseFor_decodes_any_split _ _ (List.replicate 8 0) (by decide) _
    [[0x61, 0x41, 0x61, 0x41, 0x61, 0x41], [0x61, 0x41, 0x61, 0x41, 0x61, 0x41, 0x61]] rfl rfl
    (by decide) (by decide) (by decide) rfl _ rfl (by decide) (by decide)

end Dnstt.Noise
