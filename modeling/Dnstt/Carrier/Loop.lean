import Dnstt.Carrier.RecvLoop
import Dnstt.Carrier.SendLoop

/-!
# `loop`: `recvLoop` and `sendLoop` over one channel

`loop` makes a channel of 100 records, starts `sendLoop` in a goroutine, runs `recvLoop`, and
closes the channel when `recvLoop` returns. The two goroutines are modelled interleaved: each
step is a read of `recvLoop` or a step of `sendLoop`, in any order. The non-blocking send of
`recvLoop` goes through exactly when the channel holds fewer than 100 records; a receive of
`sendLoop` yields the oldest record in the channel, or nil once the channel is closed and
empty, and blocks otherwise. The channel is not a field of the state: it holds the records
`recvLoop` sent that `sendLoop` has not received.

* `loop_channel`: the records `sendLoop` has received are, in order, the first of those
  `recvLoop` sent; the others wait in the channel, at most 100 of them.
* `loop_served`: every record `recvLoop` sent is serialized once and in order, or waits in
  the channel, in hand or in `nextRec`; when `sendLoop` has returned `nil`, all are serialized.
* `loop_fromQuery`: every record `sendLoop` receives carries a response and a ClientID that
  `responseFor` returned for a query read.
-/

namespace Dnstt

open Dns

/-- The size of the channel's buffer, `make(chan *record, 100)`. -/
def channelCapacity : Nat := 100

/-- `loop` at a point of its two goroutines: what `recvLoop` has done, whether it has returned
(and `close(ch)` has run), and `sendLoop`'s state. -/
structure LoopState where
  log : RecvLog
  closed : Bool
  send : SendState

/-- One step of either goroutine. -/
inductive LoopEvent
  /-- `recvLoop`: `ReadFrom` returns. -/
  | read (r : ReadResult)
  /-- `sendLoop`: a receive on the channel, at the top of the loop or in the bundling loop. -/
  | take
  /-- `sendLoop`: `OutgoingQueue(rec.ClientID)` has a packet ready. -/
  | packet (p : List UInt8)
  /-- `sendLoop`: the timer fires. -/
  | timer
  /-- `sendLoop`: `WriteTo` returns. -/
  | write (o : WriteOutcome)

namespace LoopState

/-- Both goroutines before their first step. -/
def init : LoopState := ⟨⟨[], []⟩, false, SendState.init⟩

/-- The records in the channel: those sent and not yet received. -/
def channel (s : LoopState) : List Record := s.log.sent.drop s.send.received.length

/-- What a receive on the channel gives `sendLoop` where it waits: the oldest record, or nil
once the channel is closed and empty; `none` while the receive blocks. -/
def takeEvent (s : LoopState) : Option SendEvent :=
  match s.channel, s.send.phase with
  | r :: _, .idle => some (.recv r)
  | r :: _, _ => some (.newRecord (some r))
  | [], .idle => if s.closed then some .closed else none
  | [], _ => if s.closed then some (.newRecord none) else none

variable (v : Variant) (parse : List UInt8 → Option Message)
  (responseFor : Message → Name → Option Message × ClientID × List UInt8) (domain : Name)

/-- A step of `sendLoop` inside `loop`. -/
def sendStep (s : LoopState) (e : SendEvent) : Option LoopState :=
  (SendState.step v s.send e).map fun send => { s with send }

/-- One step of `loop`; `none` when the event cannot happen where the goroutines are. -/
def step (s : LoopState) : LoopEvent → Option LoopState
  | .read r =>
    if s.closed then none
    else
      match r with
      | .datagram buf addr =>
        some { s with
          log := recvDatagram parse responseFor domain s.log buf addr
            (s.channel.length < channelCapacity) }
      | .temporaryError => some s
      | .error => some { s with closed := true }
  | .take => (takeEvent s).bind (sendStep v s)
  | .packet p => sendStep v s (.packet p)
  | .timer => sendStep v s .timer
  | .write o => sendStep v s (.write o)

/-- `loop` through a list of events; `none` if one of them cannot happen. -/
def run (s : LoopState) (es : List LoopEvent) : Option LoopState :=
  es.foldlM (step v parse responseFor domain) s

/-! ## The invariant -/

/-- The invariant of every reachable state of `loop`. -/
structure Inv (s : LoopState) : Prop where
  fifo : s.send.received <+: s.log.sent
  bounded : s.channel.length ≤ channelCapacity
  send : SendState.Inv v s.send
  fromQuery : ∀ rec ∈ s.log.sent, FromQuery responseFor domain rec
  drained : s.send.phase = .returned false → s.closed ∧ s.channel = []

variable {v parse responseFor domain}

theorem channel_eq {s : LoopState} (h : s.send.received <+: s.log.sent) :
    s.log.sent = s.send.received ++ s.channel := by
  obtain ⟨t, ht⟩ := h
  simp [channel, ← ht]

theorem recvDatagram_sent_eq (log : RecvLog) (buf : List UInt8) (addr : Addr) (ready : Bool) :
    (recvDatagram parse responseFor domain log buf addr ready).sent = log.sent ∨
      ready ∧ ∃ rec, (recvDatagram parse responseFor domain log buf addr ready).sent =
        log.sent ++ [rec] := by
  unfold recvDatagram
  split
  · exact .inl rfl
  · split
    split
    · cases ready <;> simp
    · exact .inl rfl

/-- `recvLoop` keeps the invariant when it sends no record, or one that joins the back of a
channel with room for it. -/
theorem inv_log {s : LoopState} {log : RecvLog} (hi : Inv v responseFor domain s)
    (hc : s.closed = false) (hfrom : ∀ rec ∈ log.sent, FromQuery responseFor domain rec)
    (h : log.sent = s.log.sent ∨
      s.channel.length < channelCapacity ∧ ∃ rec, log.sent = s.log.sent ++ [rec]) :
    Inv v responseFor domain { s with log } := by
  rcases h with h | ⟨hroom, rec, h⟩
  · refine ⟨h ▸ hi.fifo, ?_, hi.send, hfrom, fun hr => ?_⟩
    · simpa only [channel, h] using hi.bounded
    · simpa only [channel, h] using hi.drained hr
  · have hch : ({ s with log } : LoopState).channel = s.channel ++ [rec] := by
      simp only [channel, h]
      exact List.drop_append_of_le_length hi.fifo.length_le
    refine ⟨h ▸ hi.fifo.trans (List.prefix_append _ _),
      by rw [hch, List.length_append, List.length_singleton]; omega,
      hi.send, hfrom, fun hr => ?_⟩
    rw [(hi.drained hr).1] at hc
    cases hc

theorem inv_read {s : LoopState} (hi : Inv v responseFor domain s) (hc : s.closed = false)
    (buf : List UInt8) (addr : Addr) :
    Inv v responseFor domain { s with
      log := recvDatagram parse responseFor domain s.log buf addr
        (s.channel.length < channelCapacity) } :=
  inv_log hi hc (recvDatagram_sent parse responseFor domain _ _ _ _ hi.fromQuery) <|
    (recvDatagram_sent_eq _ _ _ _).imp_right fun ⟨hroom, h⟩ => ⟨of_decide_eq_true hroom, h⟩

/-- A step of `sendLoop` that receives what `takeEvent` offers keeps the invariant. -/
theorem inv_sendStep {s t : LoopState} {e : SendEvent} (hi : Inv v responseFor domain s)
    (he : e.records = [] ∨ ∃ r rest, s.channel = r :: rest ∧ e.records = [r])
    (hclosed : e = .closed → s.closed ∧ s.channel = [])
    (h : sendStep v s e = some t) : Inv v responseFor domain t := by
  obtain ⟨send, hstep, rfl⟩ := Option.map_eq_some'.mp h
  have hrec := SendState.step_received hstep
  have hsent := channel_eq hi.fifo
  have hfifo : send.received <+: s.log.sent ∧ (⟨s.log, s.closed, send⟩ : LoopState).channel.length ≤
      s.channel.length := by
    rcases he with he | ⟨r, rest, hch, he⟩
    · have hsame : send.received = s.send.received := by rw [hrec, he, List.append_nil]
      exact ⟨hsame ▸ hi.fifo, by simp only [channel, hsame]; exact le_refl _⟩
    · have hnew : send.received = s.send.received ++ [r] := by rw [hrec, he]
      refine ⟨⟨rest, by rw [hnew, hsent, hch]; simp⟩, ?_⟩
      simp only [channel, hnew, List.length_drop, List.length_append, List.length_singleton]
      omega
  refine ⟨hfifo.1, hfifo.2.trans hi.bounded, SendState.inv_step hstep hi.send, hi.fromQuery,
    fun hr => ?_⟩
  obtain ⟨-, rfl⟩ := SendState.step_returned hstep hr
  obtain ⟨hc, hch⟩ := hclosed rfl
  refine ⟨hc, ?_⟩
  simp only [channel, hrec, SendEvent.records, List.append_nil]
  exact hch

theorem takeEvent_spec {s : LoopState} {e : SendEvent} (h : takeEvent s = some e) :
    (e.records = [] ∨ ∃ r rest, s.channel = r :: rest ∧ e.records = [r]) ∧
      (e = .closed → s.closed ∧ s.channel = []) := by
  unfold takeEvent at h
  split at h
  · cases h; exact ⟨.inr ⟨_, _, ‹_›, rfl⟩, nofun⟩
  · cases h; exact ⟨.inr ⟨_, _, ‹_›, rfl⟩, nofun⟩
  · split at h <;> cases h; exact ⟨.inl rfl, fun _ => ⟨‹_›, ‹_›⟩⟩
  · split at h <;> cases h; exact ⟨.inl rfl, nofun⟩

theorem inv_init : Inv v responseFor domain init :=
  ⟨List.prefix_refl _, by simp [channel, init, channelCapacity], SendState.inv_init, nofun, nofun⟩

theorem inv_step {s t : LoopState} {e : LoopEvent} (h : step v parse responseFor domain s e = some t)
    (hi : Inv v responseFor domain s) : Inv v responseFor domain t := by
  have hplain : ∀ e : SendEvent, e.records = [] → e ≠ .closed → sendStep v s e = some t →
      Inv v responseFor domain t := fun e he hne =>
    inv_sendStep hi (.inl he) fun hc => absurd hc hne
  cases e with
  | read r =>
    simp only [step] at h
    split at h
    · cases h
    · next hc =>
      cases r with
      | datagram buf addr => cases h; exact inv_read hi (by simpa using hc) buf addr
      | temporaryError => cases h; exact hi
      | error =>
        cases h
        exact ⟨hi.fifo, hi.bounded, hi.send, hi.fromQuery, fun hr => ⟨rfl, (hi.drained hr).2⟩⟩
  | take =>
    obtain ⟨e, he, hs⟩ := Option.bind_eq_some.mp h
    obtain ⟨hrec, hclosed⟩ := takeEvent_spec he
    exact inv_sendStep hi hrec hclosed hs
  | packet p => exact hplain (.packet p) rfl nofun h
  | timer => exact hplain .timer rfl nofun h
  | write o => exact hplain (.write o) rfl nofun h

theorem inv_run {s t : LoopState} {es : List LoopEvent}
    (h : run v parse responseFor domain s es = some t) (hi : Inv v responseFor domain s) :
    Inv v responseFor domain t := by
  induction es generalizing s with
  | nil => cases h; exact hi
  | cons e es ih =>
    simp only [run, List.foldlM_cons] at h
    cases hs : step v parse responseFor domain s e with
    | none => simp [hs] at h
    | some s' => exact ih (by simpa [run, hs] using h) (inv_step hs hi)

/-! ## Runs of `loop` -/

section Runs

variable {es : List LoopEvent} {s : LoopState}

/-- The records `sendLoop` has received are, in order, the first of those `recvLoop` sent; the
others wait in the channel, at most 100 of them. -/
theorem loop_channel (h : run v parse responseFor domain init es = some s) :
    s.log.sent = s.send.received ++ s.channel ∧ s.channel.length ≤ channelCapacity := by
  have hi := inv_run h inv_init
  exact ⟨channel_eq hi.fifo, hi.bounded⟩

/-- Every record `recvLoop` sent is serialized once and in order, or waits: in hand, held in
`nextRec`, or in the channel. When `sendLoop` has returned `nil`, all are serialized. -/
theorem loop_served (h : run v parse responseFor domain init es = some s) :
    s.send.replies.map (·.record) ++ s.send.pending ++ s.channel = s.log.sent ∧
      (s.send.phase = .returned false → s.send.replies.map (·.record) = s.log.sent) := by
  have hi := inv_run h inv_init
  have hserved : s.send.replies.map (·.record) ++ s.send.pending ++ s.channel = s.log.sent := by
    rw [hi.send.served, ← channel_eq hi.fifo]
  refine ⟨hserved, fun hr => ?_⟩
  have hpending : s.send.pending = [] := by
    simp [SendState.pending, SendState.current, hr, hi.send.unheld (.inr hr)]
  simpa [hpending, (hi.drained hr).2] using hserved

/-- Every record `sendLoop` receives carries a response and a ClientID that `responseFor`
returned for a query. -/
theorem loop_fromQuery (h : run v parse responseFor domain init es = some s) :
    ∀ rec ∈ s.send.received, FromQuery responseFor domain rec := by
  have hi := inv_run h inv_init
  exact fun rec hr => hi.fromQuery rec (hi.fifo.subset hr)

end Runs

end LoopState

end Dnstt
