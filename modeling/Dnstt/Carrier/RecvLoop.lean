import Dnstt.Carrier.Basic

/-!
# `recvLoop`

The loop that reads datagrams, shared by both servers. For each datagram it parses a DNS
message, asks `responseFor` for a response, passes the response to `sendLoop` over the channel
when the non-blocking send goes through, and hands every packet of the payload to the reliable
transport (`QueueIncoming`) with the ClientID. It returns at the first read error that is not
temporary.

The parser (`dns.MessageFromWireFormat`) is not among the sources: it is a parameter, and so is
`responseFor`, which the two servers define differently. Whether each send on the channel goes
through is the environment's choice.

* `recvLoop_incoming`: the `QueueIncoming` calls are, in order, those of each datagram read,
  whatever happens on the channel.
* `recvLoop_sent`: every record on the channel carries a response and a ClientID that
  `responseFor` returned for a query read.
-/

namespace Dnstt

open Dns

/-- What `dnsConn.ReadFrom` returns. -/
inductive ReadResult
  | datagram (buf : List UInt8) (addr : Addr)
  | temporaryError
  | error

/-- What `recvLoop` has done: the records it sent on the channel and its `QueueIncoming` calls,
in order. -/
structure RecvLog where
  sent : List Record
  incoming : List (List UInt8 × ClientID)

section

variable (parse : List UInt8 → Option Message)
  (responseFor : Message → Name → Option Message × ClientID × List UInt8) (domain : Name)

/-- The body of the loop for a datagram: parse the first 4096 bytes (the size of `buf`), send
the response on the channel if there is one and the send goes through (`ready`), then queue
the packets of the payload. -/
def recvDatagram (log : RecvLog) (buf : List UInt8) (addr : Addr) (ready : Bool) : RecvLog :=
  match parse (buf.take 4096) with
  | none => log
  | some query =>
    let (resp, clientID, payload) := responseFor query domain
    { sent :=
        match resp with
        | some r => if ready then log.sent ++ [⟨r, addr, clientID⟩] else log.sent
        | none => log.sent
      incoming := log.incoming ++ (Framing.packetsOf payload).map (·, clientID) }

/-- `recvLoop` through what `ReadFrom` returns, each with the outcome of the channel send. -/
def recvLoop (log : RecvLog) : List (ReadResult × Bool) → RecvLog
  | [] => log
  | (.error, _) :: _ => log
  | (.temporaryError, _) :: reads => recvLoop log reads
  | (.datagram buf addr, ready) :: reads =>
    recvLoop (recvDatagram parse responseFor domain log buf addr ready) reads

/-- The datagrams `recvLoop` reads before it returns. -/
def datagramsRead : List (ReadResult × Bool) → List (List UInt8)
  | [] => []
  | (.error, _) :: _ => []
  | (.temporaryError, _) :: reads => datagramsRead reads
  | (.datagram buf _, _) :: reads => buf :: datagramsRead reads

/-- The `QueueIncoming` calls a datagram makes: the packets of the payload `responseFor`
returns for it, each with the ClientID. -/
def queuedBy (buf : List UInt8) : List (List UInt8 × ClientID) :=
  match parse (buf.take 4096) with
  | none => []
  | some query =>
    (Framing.packetsOf (responseFor query domain).2.2).map (·, (responseFor query domain).2.1)

theorem recvDatagram_incoming (log : RecvLog) (buf : List UInt8) (addr : Addr) (ready : Bool) :
    (recvDatagram parse responseFor domain log buf addr ready).incoming =
      log.incoming ++ queuedBy parse responseFor domain buf := by
  unfold recvDatagram queuedBy
  split <;> simp

theorem recvLoop_incoming (log : RecvLog) (reads : List (ReadResult × Bool)) :
    (recvLoop parse responseFor domain log reads).incoming =
      log.incoming ++ ((datagramsRead reads).map (queuedBy parse responseFor domain)).flatten := by
  induction reads generalizing log with
  | nil => simp [recvLoop, datagramsRead]
  | cons read reads ih =>
    obtain ⟨r, ready⟩ := read
    cases r with
    | datagram buf addr =>
      simp [recvLoop, datagramsRead, ih, recvDatagram_incoming]
    | temporaryError => simp [recvLoop, datagramsRead, ih]
    | error => simp [recvLoop, datagramsRead]

/-- A record `responseFor` returned for a query: its response and its ClientID. -/
def FromQuery (rec : Record) : Prop :=
  ∃ query, (responseFor query domain).1 = some rec.resp ∧ (responseFor query domain).2.1 = rec.clientID

theorem recvDatagram_sent (log : RecvLog) (buf : List UInt8) (addr : Addr) (ready : Bool)
    (h : ∀ rec ∈ log.sent, FromQuery responseFor domain rec) :
    ∀ rec ∈ (recvDatagram parse responseFor domain log buf addr ready).sent,
      FromQuery responseFor domain rec := by
  unfold recvDatagram
  split
  · exact h
  · next query _ =>
    intro rec hrec
    cases hr : (responseFor query domain).1 with
    | none => simp [hr] at hrec; exact h rec hrec
    | some r =>
      simp only [hr] at hrec
      split at hrec
      · rcases List.mem_append.mp hrec with hrec | hrec
        · exact h rec hrec
        · rw [List.mem_singleton.mp hrec]
          exact ⟨query, hr, rfl⟩
      · exact h rec hrec

theorem recvLoop_sent (log : RecvLog) (reads : List (ReadResult × Bool))
    (h : ∀ rec ∈ log.sent, FromQuery responseFor domain rec) :
    ∀ rec ∈ (recvLoop parse responseFor domain log reads).sent,
      FromQuery responseFor domain rec := by
  induction reads generalizing log with
  | nil => exact h
  | cons read reads ih =>
    obtain ⟨r, ready⟩ := read
    cases r with
    | datagram buf addr => exact ih _ (recvDatagram_sent parse responseFor domain log buf addr ready h)
    | temporaryError => exact ih log h
    | error => exact h

end

end Dnstt
