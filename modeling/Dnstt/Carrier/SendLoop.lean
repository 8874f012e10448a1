import Dnstt.Carrier.Basic

/-!
# `sendLoop`

The loop that answers the records `recvLoop` passes over the channel, shared by both servers.
For a record whose response is NOERROR with one question it fills the Answer section with a
TXT RR whose data is a bundle of downstream packets: first the packet left over from the
previous bundle (`nextP`), then packets from the client's outgoing queue while they fit in
`limit`. It then serializes the response and writes it to the record's address.

`sendLoop` is modelled as a step function over the points where it waits, the environment
choosing each outcome: a record or the closed channel at the top of the loop; in the bundling
loop a ready packet, a new record (then held in `nextRec`) or the timer; the result of
`WriteTo`. The servers differ in the Answer RR, the bundle's capacity and the truncation of
long responses (`Variant`).

Ghost fields log what the loop did: the records received, the packets taken from each
queue, the responses serialized (`Reply`) and the datagrams written.

* `Inv`: the invariant of every reachable state. Every received record is serialized once, in
  order, except the one being bundled and the one held in `nextRec`; each serialized response
  is the record's own, with an Answer RR built from its own question when it passes the
  NOERROR test; each write is the serialization of a reply, to its record's address; every
  nonempty packet taken is in exactly one bundle, in order, or held in `nextP`; a bundle
  takes `capacity` bytes less what is left of `limit`.
* `inv_run`: `Inv` holds after every run from `init`; `run_packets_once` reads its packet
  clause over a run.
* `step_received`, `step_returned_cases`: a step adds to the records received those its event
  takes from the channel, and `sendLoop` returns only on the closed channel or on an error of
  `WriteTo` that is not temporary; after that no event can happen (`run_of_returned`).
-/

namespace Dnstt

open Dns

/-- What the two servers' `sendLoop`s do differently. -/
structure Variant where
  /-- The Answer RR of a NOERROR response to a question, before its data is filled in. -/
  answerFor : Question → RR
  /-- The bytes a bundle may take for a question: where `limit` starts. -/
  capacity : Question → Nat
  /-- The datagram written for a serialized response. -/
  finish : List UInt8 → List UInt8

/-- The outcome of `dnsConn.WriteTo`. -/
inductive WriteOutcome
  | ok
  | temporaryError
  | error
deriving DecidableEq

/-- What the environment decides where `sendLoop` waits. -/
inductive SendEvent
  /-- `<-ch` at the top of the loop yields a record. -/
  | recv (r : Record)
  /-- `<-ch` at the top of the loop finds the channel closed. -/
  | closed
  /-- `OutgoingQueue(rec.ClientID)` has a packet ready. -/
  | packet (p : List UInt8)
  /-- The queue is empty and `<-ch` yields a record, or nothing when the channel is closed. -/
  | newRecord (r : Option Record)
  /-- The queue is empty and the timer fires. -/
  | timer
  /-- `WriteTo` returns. -/
  | write (o : WriteOutcome)

/-- The records an event takes from the channel. -/
def SendEvent.records : SendEvent → List Record
  | .recv r => [r]
  | .newRecord r => r.toList
  | _ => []

/-- Where `sendLoop` is. -/
inductive Phase
  /-- At `rec, ok = <-ch`. -/
  | idle
  /-- In the loop labelled `loop`, bundling `packets` for `rec`, whose one question is `q`. -/
  | bundling (rec : Record) (q : Question) (packets : List (List UInt8)) (limit : Int)
  /-- At `dnsConn.WriteTo(buf, addr)`. -/
  | writing (addr : Addr) (buf : List UInt8)
  /-- Returned: `nil` after the channel was closed, or the error of `WriteTo`. -/
  | returned (err : Bool)
  /-- Panicked on a packet longer than 65535 bytes while bundling for `rec`; `packets` are the
  packets of the bundle, the offending one last. -/
  | panicked (rec : Record) (packets : List (List UInt8))
deriving DecidableEq

/-- A response `sendLoop` serialized: its record, the packets it bundled into the Answer
(`none` when it left the Answer section alone) and the message. -/
structure Reply where
  record : Record
  bundle : Option (List (List UInt8))
  msg : Message
deriving DecidableEq

structure SendState where
  phase : Phase
  nextRec : Option Record
  nextP : List UInt8
  /-- The records taken from the channel, in order. -/
  received : List Record
  /-- The packets taken from the outgoing queues, with the ClientID of the queue. -/
  taken : List (ClientID × List UInt8)
  /-- The responses serialized, in order. -/
  replies : List Reply
  /-- The datagrams passed to `WriteTo`, with their address. -/
  writes : List (Addr × List UInt8)
deriving DecidableEq

/-- A run on fixed events, evaluated once: it ends in a state, where the property holds. -/
theorem exists_of_any {α : Type} {o : Option α} {p : α → Prop} [DecidablePred p]
    (h : (o.any fun a => decide (p a)) = true) : ∃ a, o = some a ∧ p a := by
  cases o with
  | none => cases h
  | some a => exact ⟨a, rfl, of_decide_eq_true h⟩

namespace SendState

/-- `sendLoop` before its first iteration. -/
def init : SendState := ⟨.idle, none, [], [], [], [], []⟩

variable (v : Variant)

/-- `rec.Resp.WireFormat()`: log the reply, then go to `WriteTo`, or on an error `continue`
to `cont`. -/
def serialize (s : SendState) (rec : Record) (bundle : Option (List (List UInt8)))
    (msg : Message) (cont : SendState → SendState) : SendState :=
  let s := { s with replies := s.replies ++ [⟨rec, bundle, msg⟩] }
  match wireFormat msg with
  | .ok buf => { s with phase := .writing rec.addr (v.finish buf) }
  | .error _ => cont s

/-- The body of the loop for a record just taken. A response that is NOERROR with one
question starts a bundle, with the packet left over from the previous bundle if there is
one; any other is serialized as it is. `nextRec` is nil here, so `continue` goes back to
the receive. -/
def start (s : SendState) (rec : Record) : SendState :=
  match rec.resp.question with
  | [q] =>
    if rec.resp.rcode = rcodeNoError then
      if 0 < s.nextP.length then
        { s with
          phase := .bundling rec q [s.nextP] (v.capacity q - (2 + s.nextP.length))
          nextP := [] }
      else { s with phase := .bundling rec q [] (v.capacity q), nextP := [] }
    else serialize v s rec none rec.resp fun s => { s with phase := .idle }
  | _ => serialize v s rec none rec.resp fun s => { s with phase := .idle }

/-- The top of the loop: `rec := nextRec; nextRec = nil`, and without a held record the
receive. -/
def next (s : SendState) : SendState :=
  match s.nextRec with
  | some r => start v { s with nextRec := none } r
  | none => { s with phase := .idle }

/-- Leaving the loop labelled `loop`: the bundle becomes the data of the Answer RR, and the
response is serialized. -/
def finishBundle (s : SendState) (rec : Record) (q : Question) (packets : List (List UInt8)) :
    SendState :=
  serialize v s rec (some packets)
    { rec.resp with answer := [{ v.answerFor q with data := encodeRDataTXT (bundleBytes packets) }] }
    (next v)

/-- One step of `sendLoop`; `none` when the event cannot happen where the loop is. -/
def step (s : SendState) : SendEvent → Option SendState
  | .recv r =>
    match s.phase with
    | .idle => some (start v { s with received := s.received ++ [r] } r)
    | _ => none
  | .closed =>
    match s.phase with
    | .idle => some { s with phase := .returned false }
    | _ => none
  | .packet p =>
    match s.phase with
    | .bundling rec q packets limit =>
      let s := { s with taken := s.taken ++ [(rec.clientID, p)] }
      if 65536 ≤ p.length then some { s with phase := .panicked rec (packets ++ [p]) }
      else if limit < 2 + p.length then some (finishBundle v { s with nextP := p } rec q packets)
      else some { s with phase := .bundling rec q (packets ++ [p]) (limit - (2 + p.length)) }
    | _ => none
  | .newRecord r =>
    match s.phase with
    | .bundling rec q packets _ =>
      some (finishBundle v { s with nextRec := r, received := s.received ++ r.toList } rec q packets)
    | _ => none
  | .timer =>
    match s.phase with
    | .bundling rec q packets _ => some (finishBundle v s rec q packets)
    | _ => none
  | .write o =>
    match s.phase with
    | .writing addr buf =>
      let s := { s with writes := s.writes ++ [(addr, buf)] }
      match o with
      | .error => some { s with phase := .returned true }
      | _ => some (next v s)
    | _ => none

/-- `sendLoop` through a list of events; `none` if one of them cannot happen. -/
def run (s : SendState) (es : List SendEvent) : Option SendState := es.foldlM (step v) s

/-! ## Steps -/

section Steps

variable {v} {s : SendState}

theorem run_cons_of_step {e : SendEvent} {t : SendState} (h : step v s e = some t)
    (es : List SendEvent) : run v s (e :: es) = run v t es := by
  simp [run, List.foldlM_cons, h]

theorem step_recv_noError (hs : s.phase = .idle) {rec : Record} {q : Question}
    (hq : rec.resp.question = [q]) (hr : rec.resp.rcode = rcodeNoError) (hp : s.nextP = []) :
    step v s (.recv rec) = some { s with
      received := s.received ++ [rec], phase := .bundling rec q [] (v.capacity q), nextP := [] } := by
  simp [step, hs, start, hq, hr, hp]

theorem step_packet_fits {rec : Record} {q : Question} {ps : List (List UInt8)} {limit : Int}
    (hs : s.phase = .bundling rec q ps limit) {p : List UInt8} (hp : p.length < 65536)
    (hl : 2 + p.length ≤ limit) :
    step v s (.packet p) = some { s with
      phase := .bundling rec q (ps ++ [p]) (limit - (2 + p.length))
      taken := s.taken ++ [(rec.clientID, p)] } := by
  simp [step, hs, Nat.not_le.mpr hp, not_lt.mpr hl]

theorem step_packet_overflow {rec : Record} {q : Question} {ps : List (List UInt8)} {limit : Int}
    (hs : s.phase = .bundling rec q ps limit) {p : List UInt8} (hp : p.length < 65536)
    (hl : limit < 2 + p.length) :
    step v s (.packet p) =
      some (finishBundle v { s with taken := s.taken ++ [(rec.clientID, p)], nextP := p } rec q ps) := by
  simp [step, hs, Nat.not_le.mpr hp, hl]

theorem step_timer {rec : Record} {q : Question} {ps : List (List UInt8)} {limit : Int}
    (hs : s.phase = .bundling rec q ps limit) :
    step v s .timer = some (finishBundle v s rec q ps) := by
  simp [step, hs]

theorem step_write {addr : Addr} {buf : List UInt8} (hs : s.phase = .writing addr buf)
    {o : WriteOutcome} (ho : o ≠ .error) :
    step v s (.write o) = some (next v { s with writes := s.writes ++ [(addr, buf)] }) := by
  cases o <;> simp_all [step]

theorem next_of_none (h : s.nextRec = none) : next v s = { s with phase := .idle } := by
  simp [next, h]

/-- A temporary error of `WriteTo` is logged, and `sendLoop` goes on as after a successful
write. -/
theorem step_write_temporaryError (s : SendState) :
    step v s (.write .temporaryError) = step v s (.write .ok) := by
  cases hp : s.phase <;> simp [step, hp]

/-- Any other error of `WriteTo` makes `sendLoop` return, the record held in `nextRec` and the
replies left as they were. -/
theorem step_write_error {t : SendState} (h : step v s (.write .error) = some t) :
    t.phase = .returned true ∧ t.nextRec = s.nextRec ∧ t.replies = s.replies := by
  cases hp : s.phase <;> simp only [step, hp, reduceCtorEq, Option.some.injEq] at h
  subst h
  exact ⟨rfl, rfl, rfl⟩

theorem run_singleton (e : SendEvent) : run v s [e] = step v s e := by
  simp [run]

/-- Once `sendLoop` has returned, no event can happen. -/
theorem run_of_returned {b : Bool} (hs : s.phase = .returned b) {es : List SendEvent}
    {t : SendState} (h : run v s es = some t) : t = s := by
  cases es with
  | nil => simpa [run] using h.symm
  | cons e es => cases e <;> simp [run, step, hs] at h

end Steps

/-! ## Frames -/

section Frames

variable {v}

theorem serialize_received {s : SendState} {rec : Record} {b : Option (List (List UInt8))}
    {msg : Message} {cont : SendState → SendState} (hc : ∀ t, (cont t).received = t.received) :
    (serialize v s rec b msg cont).received = s.received := by
  unfold serialize
  split
  · rfl
  · exact hc _

theorem start_received (s : SendState) (rec : Record) : (start v s rec).received = s.received := by
  unfold start
  split
  · split
    · split <;> rfl
    · exact serialize_received fun _ => rfl
  · exact serialize_received fun _ => rfl

theorem next_received (s : SendState) : (next v s).received = s.received := by
  unfold next
  split
  · exact start_received _ _
  · rfl

theorem finishBundle_received (s : SendState) (rec : Record) (q : Question)
    (ps : List (List UInt8)) : (finishBundle v s rec q ps).received = s.received :=
  serialize_received next_received

/-- A step adds to the records received exactly those its event takes from the channel. -/
theorem step_received {s t : SendState} {e : SendEvent} (h : step v s e = some t) :
    t.received = s.received ++ e.records := by
  cases e with
  | recv r =>
    cases hp : s.phase <;> simp only [step, hp, reduceCtorEq, Option.some.injEq] at h
    subst h
    simp [start_received, SendEvent.records]
  | closed =>
    cases hp : s.phase <;> simp only [step, hp, reduceCtorEq, Option.some.injEq] at h
    subst h
    simp [SendEvent.records]
  | packet p =>
    cases hp : s.phase <;> simp only [step, hp, reduceCtorEq] at h
    split_ifs at h <;> cases h <;> simp [finishBundle_received, SendEvent.records]
  | newRecord r =>
    cases hp : s.phase <;> simp only [step, hp, reduceCtorEq, Option.some.injEq] at h
    subst h
    simp [finishBundle_received, SendEvent.records]
  | timer =>
    cases hp : s.phase <;> simp only [step, hp, reduceCtorEq, Option.some.injEq] at h
    subst h
    simp [finishBundle_received, SendEvent.records]
  | write o =>
    cases hp : s.phase <;> simp only [step, hp, reduceCtorEq] at h
    cases o <;> cases h <;> simp [next_received, SendEvent.records]

theorem serialize_taken {s : SendState} {rec : Record} {b : Option (List (List UInt8))}
    {msg : Message} {cont : SendState → SendState} (hc : ∀ t, (cont t).taken = t.taken) :
    (serialize v s rec b msg cont).taken = s.taken := by
  unfold serialize
  split
  · rfl
  · exact hc _

theorem start_taken (s : SendState) (rec : Record) : (start v s rec).taken = s.taken := by
  unfold start
  split
  · split
    · split <;> rfl
    · exact serialize_taken fun _ => rfl
  · exact serialize_taken fun _ => rfl

theorem next_taken (s : SendState) : (next v s).taken = s.taken := by
  unfold next
  split
  · exact start_taken _ _
  · rfl

/-- A step takes a packet from a queue only on a ready packet. -/
theorem step_taken {s t : SendState} {e : SendEvent} (h : step v s e = some t)
    (he : ∀ p, e ≠ .packet p) : t.taken = s.taken := by
  cases e with
  | packet p => exact absurd rfl (he p)
  | recv r =>
    cases hp : s.phase <;> simp only [step, hp, reduceCtorEq, Option.some.injEq] at h
    subst h
    exact start_taken _ _
  | closed =>
    cases hp : s.phase <;> simp only [step, hp, reduceCtorEq, Option.some.injEq] at h
    subst h
    rfl
  | newRecord r =>
    cases hp : s.phase <;> simp only [step, hp, reduceCtorEq, Option.some.injEq] at h
    subst h
    exact serialize_taken next_taken
  | timer =>
    cases hp : s.phase <;> simp only [step, hp, reduceCtorEq, Option.some.injEq] at h
    subst h
    exact serialize_taken next_taken
  | write o =>
    cases hp : s.phase <;> simp only [step, hp, reduceCtorEq] at h
    cases o <;> cases h <;> first | rfl | exact next_taken _

/-- A ready packet is taken from the queue of the record being bundled. -/
theorem step_packet_taken {s t : SendState} {rec : Record} {q : Question}
    {ps : List (List UInt8)} {limit : Int} (hs : s.phase = .bundling rec q ps limit)
    {p : List UInt8} (h : step v s (.packet p) = some t) :
    t.taken = s.taken ++ [(rec.clientID, p)] := by
  simp only [step, hs] at h
  split_ifs at h <;> cases h
  · rfl
  · exact serialize_taken next_taken
  · rfl

/-- With no record held, finishing a bundle logs exactly one reply, carrying the bundle, and
keeps `nextP`. -/
theorem finishBundle_of_none {s : SendState} (hn : s.nextRec = none) (rec : Record)
    (q : Question) (ps : List (List UInt8)) :
    ∃ msg, (finishBundle v s rec q ps).replies = s.replies ++ [⟨rec, some ps, msg⟩] ∧
      (finishBundle v s rec q ps).nextP = s.nextP := by
  unfold finishBundle serialize
  split
  · exact ⟨_, rfl, rfl⟩
  · simp only [next, hn, and_true]
    exact ⟨_, rfl⟩

theorem serialize_phase {s : SendState} {rec : Record} {b : Option (List (List UInt8))}
    {msg : Message} {cont : SendState → SendState} {err : Bool}
    (hc : ∀ t, (cont t).phase ≠ .returned err) :
    (serialize v s rec b msg cont).phase ≠ .returned err := by
  unfold serialize
  split
  · nofun
  · exact hc _

theorem start_phase (s : SendState) (rec : Record) (err : Bool) :
    (start v s rec).phase ≠ .returned err := by
  unfold start
  split
  · split
    · split <;> nofun
    · exact serialize_phase fun _ => nofun
  · exact serialize_phase fun _ => nofun

theorem next_phase (s : SendState) (err : Bool) : (next v s).phase ≠ .returned err := by
  unfold next
  split
  · exact start_phase _ _ _
  · nofun

/-- `sendLoop` returns only on the closed channel, with `nil`, or on an error of `WriteTo` that
is not temporary. -/
theorem step_returned_cases {s t : SendState} {e : SendEvent} (h : step v s e = some t) {b : Bool}
    (ht : t.phase = .returned b) : e = .closed ∨ e = .write .error := by
  cases e with
  | closed => exact .inl rfl
  | recv r =>
    cases hp : s.phase <;> simp only [step, hp, reduceCtorEq, Option.some.injEq] at h
    subst h
    exact absurd ht (start_phase _ _ _)
  | packet p =>
    cases hp : s.phase <;> simp only [step, hp, reduceCtorEq] at h
    split_ifs at h <;> cases h
    · exact absurd ht nofun
    · exact absurd ht (serialize_phase fun _ => next_phase _ _)
    · exact absurd ht nofun
  | newRecord r | timer =>
    cases hp : s.phase <;> simp only [step, hp, reduceCtorEq, Option.some.injEq] at h
    subst h
    exact absurd ht (serialize_phase fun _ => next_phase _ _)
  | write o =>
    cases hp : s.phase <;> simp only [step, hp, reduceCtorEq] at h
    cases o <;> cases h
    · exact absurd ht (next_phase _ _)
    · exact absurd ht (next_phase _ _)
    · exact .inr rfl

/-- `sendLoop` returns `nil` only at the top of the loop, on the closed channel. -/
theorem step_returned {s t : SendState} {e : SendEvent} (h : step v s e = some t)
    (ht : t.phase = .returned false) : s.phase = .idle ∧ e = .closed := by
  rcases step_returned_cases h ht with rfl | rfl
  · cases hp : s.phase <;> simp only [step, hp, reduceCtorEq] at h
    exact ⟨rfl, rfl⟩
  · cases hp : s.phase <;> simp only [step, hp, reduceCtorEq, Option.some.injEq] at h
    subst h
    cases ht

end Frames

/-! ## The invariant -/

/-- The record in hand: the one being bundled, or the one bundled when the loop panicked. -/
def current : Phase → List Record
  | .bundling rec _ _ _ => [rec]
  | .panicked rec _ => [rec]
  | _ => []

/-- The packets of the bundle in hand. -/
def bundled : Phase → List (List UInt8)
  | .bundling _ _ ps _ => ps
  | .panicked _ ps => ps
  | _ => []

/-- The datagram about to be written. -/
def pendingWrite : Phase → List (Addr × List UInt8)
  | .writing addr buf => [(addr, buf)]
  | _ => []

/-- The records received and not yet serialized: the one in hand, then the one held. -/
def pending (s : SendState) : List Record := current s.phase ++ s.nextRec.toList

theorem pending_length_le (s : SendState) : s.pending.length ≤ 2 := by
  have h1 : (current s.phase).length ≤ 1 := by unfold current; split <;> simp
  have h2 : s.nextRec.toList.length ≤ 1 := by cases s.nextRec <;> simp
  simp only [pending, List.length_append]
  omega

/-- A bundle fits its capacity, or it is one packet taken, left over from the previous
bundle, that is too long for it by itself. -/
def Fits (taken : List (List UInt8)) (q : Question) (ps : List (List UInt8)) : Prop :=
  (bundleBytes ps).length ≤ v.capacity q ∨ ∃ p ∈ taken, ps = [p] ∧ v.capacity q < 2 + p.length

end SendState

/-- What `sendLoop` serializes for a record: the response as it is when it fails the NOERROR
test, else the response with one Answer RR built from its own question, carrying the bundle. -/
def Reply.Valid (v : Variant) (r : Reply) : Prop :=
  match r.bundle with
  | none => r.msg = r.record.resp ∧
      ¬ (r.record.resp.rcode = rcodeNoError ∧ r.record.resp.question.length = 1)
  | some ps => ∃ q, r.record.resp.question = [q] ∧ r.record.resp.rcode = rcodeNoError ∧
      r.msg = { r.record.resp with
        answer := [{ v.answerFor q with data := encodeRDataTXT (bundleBytes ps) }] }

theorem Reply.Valid.msg_eq {v : Variant} {r : Reply} (h : r.Valid v) :
    ∃ answer, r.msg = { r.record.resp with answer := answer } := by
  unfold Reply.Valid at h
  split at h
  · exact ⟨r.record.resp.answer, h.1⟩
  · obtain ⟨q, -, -, h⟩ := h
    exact ⟨_, h⟩

/-- The datagram written for a reply: its serialization after `finish`, to the record's
address; none when serialization fails. -/
def Reply.datagram (v : Variant) (r : Reply) : Option (Addr × List UInt8) :=
  match wireFormat r.msg with
  | .ok buf => some (r.record.addr, v.finish buf)
  | .error _ => none

theorem Reply.datagram_eq_some {v : Variant} {r : Reply} {w : Addr × List UInt8}
    (h : r.datagram v = some w) :
    ∃ buf, wireFormat r.msg = .ok buf ∧ w = (r.record.addr, v.finish buf) := by
  unfold Reply.datagram at h
  split at h
  · exact ⟨_, ‹_›, (Option.some.inj h).symm⟩
  · cases h

namespace SendState

variable (v : Variant)

/-- The invariant of the states where `sendLoop` waits. -/
structure Inv (s : SendState) : Prop where
  served : s.replies.map (·.record) ++ s.pending = s.received
  unheld : s.phase = .idle ∨ s.phase = .returned false → s.nextRec = none
  bundling : ∀ rec q ps limit, s.phase = .bundling rec q ps limit →
    s.nextRec = none ∧ s.nextP = [] ∧ rec.resp.question = [q] ∧ rec.resp.rcode = rcodeNoError ∧
    (bundleBytes ps).length + limit = v.capacity q ∧
    (0 ≤ limit ∨ ∃ p ∈ s.taken.map (·.2), ps = [p] ∧ v.capacity q < 2 + p.length)
  valid : ∀ r ∈ s.replies, r.Valid v
  fits : ∀ r ∈ s.replies, ∀ q ps, r.record.resp.question = [q] → r.bundle = some ps →
    Fits v (s.taken.map (·.2)) q ps
  sent : s.writes ++ pendingWrite s.phase = s.replies.filterMap (·.datagram v)
  packets : (s.taken.map (·.2)).filter (· ≠ []) =
    ((s.replies.filterMap (·.bundle)).flatten ++ bundled s.phase ++ [s.nextP]).filter (· ≠ [])
  held : s.nextP = [] ∨ s.nextP ∈ s.taken.map (·.2)
  panic : ∀ rec ps, s.phase = .panicked rec ps → ∃ p ∈ s.taken.map (·.2), 65536 ≤ p.length

/-- The state between two records, before the phase is set: `held` are the records received
and not serialized, and `extra` the packets of a bundle about to be logged with its reply. -/
structure Top (s : SendState) (held : List Record) (extra : List (List UInt8)) : Prop where
  served : s.replies.map (·.record) ++ held = s.received
  valid : ∀ r ∈ s.replies, r.Valid v
  fits : ∀ r ∈ s.replies, ∀ q ps, r.record.resp.question = [q] → r.bundle = some ps →
    Fits v (s.taken.map (·.2)) q ps
  sent : s.writes = s.replies.filterMap (·.datagram v)
  packets : (s.taken.map (·.2)).filter (· ≠ []) =
    ((s.replies.filterMap (·.bundle)).flatten ++ extra ++ [s.nextP]).filter (· ≠ [])
  held : s.nextP = [] ∨ s.nextP ∈ s.taken.map (·.2)

variable {v}

theorem inv_serialize {s : SendState} {rec : Record} {held : List Record}
    {b : Option (List (List UInt8))} {msg : Message} {cont : SendState → SendState}
    (ht : Top v s (rec :: held) (b.getD [])) (hheld : held = s.nextRec.toList)
    (hv : Reply.Valid v ⟨rec, b, msg⟩)
    (hf : ∀ q ps, rec.resp.question = [q] → b = some ps → Fits v (s.taken.map (·.2)) q ps)
    (hc : ∀ t, Top v t held [] → t.nextRec = s.nextRec → Inv v (cont t)) :
    Inv v (serialize v s rec b msg cont) := by
  have hvalid : ∀ r ∈ s.replies ++ [(⟨rec, b, msg⟩ : Reply)], r.Valid v := fun r hr =>
    (List.mem_append.mp hr).elim (ht.valid r) fun h => List.mem_singleton.mp h ▸ hv
  have hfits : ∀ r ∈ s.replies ++ [(⟨rec, b, msg⟩ : Reply)], ∀ q ps, r.record.resp.question = [q] →
      r.bundle = some ps → Fits v (s.taken.map (·.2)) q ps := fun r hr =>
    (List.mem_append.mp hr).elim (ht.fits r) fun h => List.mem_singleton.mp h ▸ hf
  have hpackets : (s.taken.map (·.2)).filter (· ≠ []) =
      (((s.replies ++ [(⟨rec, b, msg⟩ : Reply)]).filterMap Reply.bundle).flatten ++ [] ++
        [s.nextP]).filter (· ≠ []) := by
    rw [ht.packets]; cases b <;> simp
  unfold serialize
  split
  next buf hw =>
    refine ⟨by simp [pending, current, ← ht.served, hheld], nofun, nofun, hvalid, hfits, ?_,
      by simpa [bundled] using hpackets, ht.held, nofun⟩
    simp [pendingWrite, ht.sent, Reply.datagram, hw]
  next hw =>
    exact hc _ ⟨by simp [← ht.served], hvalid, hfits,
      by simp [ht.sent, Reply.datagram, hw], hpackets, ht.held⟩ rfl

theorem inv_start {s : SendState} {rec : Record} (ht : Top v s [rec] [])
    (hn : s.nextRec = none) : Inv v (start v s rec) := by
  have hplain : ¬ (rec.resp.rcode = rcodeNoError ∧ rec.resp.question.length = 1) →
      Inv v (serialize v s rec none rec.resp fun s => { s with phase := .idle }) := fun hp =>
    inv_serialize ht (by simp [hn]) ⟨rfl, hp⟩ (fun _ _ _ h => by cases h) fun t ht' htn =>
      ⟨by simpa [pending, current, htn, hn] using ht'.served, fun _ => htn.trans hn, nofun,
        ht'.valid, ht'.fits, by simpa [pendingWrite] using ht'.sent,
        by simpa [bundled] using ht'.packets, ht'.held, nofun⟩
  have hbundle : ∀ q ps (limit : Int), rec.resp.question = [q] → rec.resp.rcode = rcodeNoError →
      (bundleBytes ps).length + limit = v.capacity q →
      (0 ≤ limit ∨ ∃ p ∈ s.taken.map Prod.snd, ps = [p] ∧ v.capacity q < 2 + p.length) →
      ((s.replies.filterMap Reply.bundle).flatten ++ ps ++ [[]]).filter (· ≠ []) =
        ((s.replies.filterMap Reply.bundle).flatten ++ [] ++ [s.nextP]).filter (· ≠ []) →
      Inv v { s with phase := .bundling rec q ps limit, nextP := [] } := by
    intro q ps limit hq hr hl hfit hps
    refine ⟨by simp [pending, current, hn, ht.served], nofun, ?_, ht.valid, ht.fits,
      by simpa [pendingWrite] using ht.sent, ht.packets.trans hps.symm, .inl rfl, nofun⟩
    rintro _ _ _ _ ⟨⟩
    exact ⟨hn, rfl, hq, hr, hl, hfit⟩
  unfold start
  split
  next q hq =>
    split
    next hr =>
      split
      next hp =>
        refine hbundle q [s.nextP] (v.capacity q - (2 + s.nextP.length)) hq hr
          (by simp [bundleBytes]) ?_ (by simp [List.filter])
        by_cases hfit : 2 + s.nextP.length ≤ v.capacity q
        · exact .inl (by omega)
        · have hmem := ht.held.resolve_left (List.ne_nil_of_length_pos hp)
          exact .inr ⟨s.nextP, hmem, rfl, by omega⟩
      next hp =>
        have : s.nextP = [] := List.eq_nil_of_length_eq_zero (by omega)
        exact hbundle q [] (v.capacity q) hq hr (by simp) (.inl (by omega)) (by simp [this])
    next hr => exact hplain fun h => hr h.1
  next hq => exact hplain fun h => (List.length_eq_one.mp h.2).elim fun q h' => hq q h'

theorem inv_next {s : SendState} (ht : Top v s s.nextRec.toList []) : Inv v (next v s) := by
  cases hn : s.nextRec with
  | none =>
    rw [hn] at ht
    simp only [next, hn]
    exact ⟨by simpa [pending, current] using ht.served, fun _ => rfl, by simp, ht.valid,
      ht.fits, by simpa [pendingWrite] using ht.sent, by simpa [bundled] using ht.packets, ht.held,
      nofun⟩
  | some r =>
    rw [hn] at ht
    simp only [next, hn]
    exact inv_start ⟨ht.served, ht.valid, ht.fits, ht.sent, ht.packets, ht.held⟩ rfl

theorem inv_finishBundle {s : SendState} {rec : Record} {q : Question} {ps : List (List UInt8)}
    (ht : Top v s (rec :: s.nextRec.toList) ps) (hq : rec.resp.question = [q])
    (hr : rec.resp.rcode = rcodeNoError) (hf : Fits v (s.taken.map (·.2)) q ps) :
    Inv v (finishBundle v s rec q ps) :=
  inv_serialize ht rfl ⟨q, hq, hr, rfl⟩ (fun q' ps' hq' hb => by
      rw [hq, List.singleton_inj] at hq'
      cases hq'; cases hb; exact hf)
    fun _ ht' hn => inv_next (hn ▸ ht')

theorem Fits.mono {taken taken' : List (List UInt8)} {q : Question} {ps : List (List UInt8)}
    (h : Fits v taken q ps) (hsub : ∀ p ∈ taken, p ∈ taken') : Fits v taken' q ps :=
  h.imp_right fun ⟨p, hp, hlt⟩ => ⟨p, hsub p hp, hlt⟩

theorem inv_init : Inv v init := ⟨rfl, fun _ => rfl, nofun, nofun, nofun, rfl, rfl, .inl rfl, nofun⟩

theorem inv_step {s s' : SendState} {e : SendEvent} (h : step v s e = some s') (hi : Inv v s) :
    Inv v s' := by
  cases e with
  | recv r =>
    cases hp : s.phase <;> simp only [step, hp, reduceCtorEq] at h
    cases h
    have hn := hi.unheld (.inl hp)
    refine inv_start ⟨?_, hi.valid, hi.fits, by simpa [hp, pendingWrite] using hi.sent,
      by simpa [hp, bundled] using hi.packets, hi.held⟩ hn
    simpa [pending, current, hp, hn] using congrArg (· ++ [r]) hi.served
  | closed =>
    cases hp : s.phase <;> simp only [step, hp, reduceCtorEq] at h
    cases h
    exact ⟨by simpa [pending, current, hp] using hi.served, fun _ => hi.unheld (.inl hp), nofun,
      hi.valid, hi.fits, by simpa [pendingWrite, hp] using hi.sent,
      by simpa [bundled, hp] using hi.packets, hi.held, nofun⟩
  | packet p =>
    cases hp : s.phase <;> simp only [step, hp, reduceCtorEq] at h
    next rec q ps limit =>
    obtain ⟨hn, hnp, hq, hr, hl, hfit⟩ := hi.bundling rec q ps limit hp
    have hsub : ∀ x ∈ s.taken.map (·.2), x ∈ (s.taken ++ [(rec.clientID, p)]).map (·.2) :=
      fun x hx => by simp only [List.map_append, List.mem_append]; exact .inl hx
    have hserved : s.replies.map (·.record) ++ [rec] = s.received := by
      simpa [pending, current, hp, hn] using hi.served
    have hpk : ((s.taken ++ [(rec.clientID, p)]).map (·.2)).filter (· ≠ []) =
        ((s.replies.filterMap Reply.bundle).flatten ++ ps ++ [p]).filter (· ≠ []) := by
      have := hi.packets
      simp only [hp, bundled, hnp] at this
      rw [List.map_append, List.filter_append, this]
      simp [List.filter_append]
    have hpk' : ((s.taken ++ [(rec.clientID, p)]).map (·.2)).filter (· ≠ []) =
        ((s.replies.filterMap Reply.bundle).flatten ++ (ps ++ [p]) ++ [s.nextP]).filter (· ≠ []) := by
      rw [hpk, hnp]; simp [List.filter_append, List.filter_cons]
    have hmem : p ∈ (s.taken ++ [(rec.clientID, p)]).map (·.2) :=
      List.mem_map_of_mem _ (List.mem_append_right _ (List.mem_singleton_self _))
    split_ifs at h with h1 h2 <;> cases h
    · exact ⟨by simpa [pending, current, hn] using hserved, nofun, nofun, hi.valid,
        fun r hr q ps hq hb => (hi.fits r hr q ps hq hb).mono hsub,
        by simpa [hp, pendingWrite] using hi.sent, hpk', .inl hnp, fun _ _ _ => ⟨p, hmem, h1⟩⟩
    · refine inv_finishBundle ⟨by simpa [hn] using hserved, hi.valid,
        fun r hr q ps hq hb => (hi.fits r hr q ps hq hb).mono hsub,
        by simpa [hp, pendingWrite] using hi.sent, hpk, .inr hmem⟩ hq hr ?_
      rcases hfit with hfit | hfit
      · exact .inl (by omega)
      · exact Fits.mono (.inr hfit) hsub
    · refine ⟨by simpa [pending, current, hn] using hserved, nofun, ?_, hi.valid,
        fun r hr q ps hq hb => (hi.fits r hr q ps hq hb).mono hsub,
        by simpa [hp, pendingWrite] using hi.sent, hpk', .inl hnp, nofun⟩
      rintro _ _ _ _ ⟨⟩
      exact ⟨hn, hnp, hq, hr, by simp [bundleBytes_append, bundleBytes] at hl ⊢; omega,
        .inl (by omega)⟩
  | newRecord r =>
    cases hp : s.phase <;> simp only [step, hp, reduceCtorEq] at h
    next rec q ps limit =>
    obtain ⟨hn, hnp, hq, hr, hl, hfit⟩ := hi.bundling rec q ps limit hp
    cases h
    refine inv_finishBundle ⟨?_, hi.valid, hi.fits, by simpa [hp, pendingWrite] using hi.sent,
      by simpa [hp, bundled] using hi.packets, hi.held⟩ hq hr ?_
    · simpa [pending, current, hp, hn] using congrArg (· ++ r.toList) hi.served
    · rcases hfit with hfit | hfit
      · exact .inl (by omega)
      · exact .inr hfit
  | timer =>
    cases hp : s.phase <;> simp only [step, hp, reduceCtorEq] at h
    next rec q ps limit =>
    obtain ⟨hn, hnp, hq, hr, hl, hfit⟩ := hi.bundling rec q ps limit hp
    cases h
    refine inv_finishBundle ⟨?_, hi.valid, hi.fits, by simpa [hp, pendingWrite] using hi.sent,
      by simpa [hp, bundled] using hi.packets, hi.held⟩ hq hr ?_
    · simpa [pending, current, hp, hn] using hi.served
    · rcases hfit with hfit | hfit
      · exact .inl (by omega)
      · exact .inr hfit
  | write o =>
    cases hp : s.phase <;> simp only [step, hp, reduceCtorEq] at h
    next addr buf =>
    have hsent : s.writes ++ [(addr, buf)] = s.replies.filterMap (·.datagram v) := by
      simpa [hp, pendingWrite] using hi.sent
    have hserved : s.replies.map (·.record) ++ s.nextRec.toList = s.received := by
      simpa [pending, current, hp] using hi.served
    cases o <;> simp only [Option.some.injEq] at h <;> subst h
    · exact inv_next ⟨hserved, hi.valid, hi.fits, hsent, by simpa [hp, bundled] using hi.packets,
        hi.held⟩
    · exact inv_next ⟨hserved, hi.valid, hi.fits, hsent, by simpa [hp, bundled] using hi.packets,
        hi.held⟩
    · exact ⟨by simpa [pending, current] using hserved, nofun, nofun, hi.valid, hi.fits,
        by simpa [pendingWrite] using hsent, by simpa [hp, bundled] using hi.packets, hi.held, nofun⟩

theorem inv_run {s s' : SendState} {es : List SendEvent} (h : run v s es = some s')
    (hi : Inv v s) : Inv v s' := by
  induction es generalizing s with
  | nil => cases h; exact hi
  | cons e es ih =>
    simp only [run, List.foldlM_cons] at h
    cases hs : step v s e with
    | none => simp [hs] at h
    | some t => exact ih (by simpa [run, hs] using h) (inv_step hs hi)

/-- Every datagram written is the serialization of a reply, `finish`ed, to its record's
address. -/
theorem Inv.mem_writes {s : SendState} (hi : Inv v s) {w : Addr × List UInt8}
    (hw : w ∈ s.writes) :
    ∃ r ∈ s.replies, ∃ buf, wireFormat r.msg = .ok buf ∧ w = (r.record.addr, v.finish buf) := by
  obtain ⟨r, hr, hd⟩ := List.mem_filterMap.mp (hi.sent ▸ List.mem_append_left _ hw)
  exact ⟨r, hr, Reply.datagram_eq_some hd⟩

theorem Inv.record_mem {s : SendState} (hi : Inv v s) {r : Reply} (hr : r ∈ s.replies) :
    r.record ∈ s.received :=
  hi.served ▸ List.mem_append_left _ (List.mem_map_of_mem _ hr)

/-- Over every run, the nonempty packets taken from the queues are, in the order taken, those of
the bundles passed to `WireFormat`, in the order of the replies, then those of the bundle in
hand, then the one held in `nextP`: none is dropped before `WireFormat` and none is bundled
twice. A reply whose `WireFormat` or `WriteTo` fails is among the replies, so this is a fact
about the responses serialized, not about the datagrams that reach the network. -/
theorem run_packets_once (v : Variant) (es : List SendEvent) (s : SendState)
    (h : run v init es = some s) :
    (s.taken.map (·.2)).filter (· ≠ []) =
      ((s.replies.filterMap (·.bundle)).flatten ++ bundled s.phase ++ [s.nextP]).filter (· ≠ []) :=
  (inv_run h inv_init).packets

/-- A variant for runs on fixed events: a TXT answer for the question, bundles of 8 bytes, no
truncation. -/
def smallVariant : Variant := ⟨fun q => ⟨q.name, rrTypeTXT, 1, responseTTL, []⟩, fun _ => 8, id⟩

/-- A NOERROR response to a TXT question for the root, from address 1. -/
def rootRecord : Record := ⟨⟨0, 0x8000, [⟨Name.root, rrTypeTXT, 1⟩], [], []⟩, ⟨1⟩, ClientID.zero⟩

/-- Two packets bundled for one record, a third overflowing into `nextP`. -/
theorem run_packets_once_three :
    ∃ s, run smallVariant init
        [.recv rootRecord, .packet [1], .packet [2], .packet [3, 3, 3], .write .ok] = some s ∧
      (s.taken.map (·.2)).filter (· ≠ []) =
        ((s.replies.filterMap (·.bundle)).flatten ++ bundled s.phase ++ [s.nextP]).filter (· ≠ []) := by
  obtain ⟨s, hs⟩ : ∃ s, run smallVariant init
      [.recv rootRecord, .packet [1], .packet [2], .packet [3, 3, 3], .write .ok] = some s :=
    Option.isSome_iff_exists.mp (by decide)
  exact ⟨s, hs, run_packets_once _ _ s hs⟩

end SendState

end Dnstt
