import Dnstt.Carrier.Loop
import Dnstt.Carrier.Select

/-!
# `loop` with the `select`s of `sendLoop`

`LoopState` lets the environment choose, in the bundling loop of `sendLoop`, between a ready
packet, a new record and the timer. Here the `sendLoop` of `loop` is a `SelectState`: the
outgoing queues, the timer and the two `select`s are part of the state, and the sessions putting
packets on the queues are steps too. A receive on the channel yields what `takeEvent` offers.

* `step_refines`: forgetting the queues and the timer, every step is a step of `LoopState` or
  leaves it alone, so `LoopState.Inv`, and with it the results about the runs of `loop`, holds
  of every state reached (`inv_run`).
* `loop_drains`: from every state reached, short of `sendLoop` having returned or panicked, and
  with no packet of 65536 bytes or more queued, `sendLoop`'s own steps alone (receives on the
  channel, polls, the timer firing, `maxResponseDelay` passing, successful writes) serialize, in
  order, every record `recvLoop` has sent, within five more steps than there are packets queued
  for what `sendLoop` holds and again for each record in the channel.
-/

namespace Dnstt

open Dns

/-- `loop` at a point of its two goroutines, with the `select`s of `sendLoop`. -/
structure SelectLoop where
  log : RecvLog
  closed : Bool
  send : SelectState

/-- One step of either goroutine, or of a session. -/
inductive SelectLoopEvent
  /-- `recvLoop`: `ReadFrom` returns. -/
  | read (r : ReadResult)
  /-- `sendLoop`: a receive on the channel, at the top of the loop or in the inner `select`. -/
  | take
  /-- `sendLoop`: the outer `select` of the bundling loop. -/
  | poll
  /-- `sendLoop`: `<-timer.C` in the inner `select`. -/
  | fire
  /-- `maxResponseDelay` passes. -/
  | expire
  /-- `sendLoop`: `WriteTo` returns. -/
  | write (o : WriteOutcome)
  /-- A session puts a packet on `OutgoingQueue(c)`. -/
  | enqueue (c : ClientID) (p : List UInt8)

/-- The `select` case by which `sendLoop` receives what a receive on the channel yields. -/
def SelectEvent.ofTake : SendEvent → SelectEvent
  | .recv r => .recv r
  | .newRecord r => .newRecord r
  | _ => .closed

/-- The step of `loop` on which `sendLoop` takes the `select` step `e`: a receive on the channel
is a take. -/
def SelectLoopEvent.ofSelect : SelectEvent → SelectLoopEvent
  | .poll => .poll
  | .fire => .fire
  | .expire => .expire
  | .write o => .write o
  | .enqueue c p => .enqueue c p
  | _ => .take

namespace SelectLoop

/-- Both goroutines before their first step, every queue empty. -/
def init : SelectLoop := ⟨⟨[], []⟩, false, SelectState.init⟩

/-- What the state of `loop` is, forgetting the queues and the timer. -/
def toLoop (s : SelectLoop) : LoopState := ⟨s.log, s.closed, s.send.send⟩

/-- The records in the channel. -/
def channel (s : SelectLoop) : List Record := s.toLoop.channel

variable (v : Variant) (parse : List UInt8 → Option Message)
  (responseFor : Message → Name → Option Message × ClientID × List UInt8) (domain : Name)

/-- A step of `sendLoop`'s `select`s inside `loop`. -/
def sendStep (s : SelectLoop) (e : SelectEvent) : Option SelectLoop :=
  (SelectState.step v s.send e).map fun send => { s with send }

/-- One step of `loop`; `none` when the event cannot happen where the goroutines are. -/
def step (s : SelectLoop) : SelectLoopEvent → Option SelectLoop
  | .read r =>
    (LoopState.step v parse responseFor domain s.toLoop (.read r)).map fun l =>
      { s with log := l.log, closed := l.closed }
  | .take => (LoopState.takeEvent s.toLoop).bind fun e => sendStep v s (.ofTake e)
  | .poll => sendStep v s .poll
  | .fire => sendStep v s .fire
  | .expire => sendStep v s .expire
  | .write o => sendStep v s (.write o)
  | .enqueue c p => sendStep v s (.enqueue c p)

/-- `loop` through a list of events; `none` if one of them cannot happen. -/
def run (s : SelectLoop) (es : List SelectLoopEvent) : Option SelectLoop :=
  es.foldlM (step v parse responseFor domain) s

/-! ## Refinement of `LoopState` -/

section Refinement

variable {v parse responseFor domain}

theorem run_cons_of_step {s t : SelectLoop} {e : SelectLoopEvent}
    (h : step v parse responseFor domain s e = some t) (es : List SelectLoopEvent) :
    run v parse responseFor domain s (e :: es) = run v parse responseFor domain t es := by
  simp [run, h]

theorem run_append {s t : SelectLoop} {es es' : List SelectLoopEvent}
    (h : run v parse responseFor domain s es = some t) :
    run v parse responseFor domain s (es ++ es') = run v parse responseFor domain t es' := by
  simp only [run, List.foldlM_append] at h ⊢
  simp [h]

/-- `recvLoop`'s steps leave `sendLoop` alone. -/
theorem read_send {l l' : LoopState} {r : ReadResult}
    (h : LoopState.step v parse responseFor domain l (.read r) = some l') : l'.send = l.send := by
  simp only [LoopState.step] at h
  split at h
  · cases h
  · cases r <;> cases h <;> rfl

/-- A receive on the channel is carried out by the `select` case for what it yields. -/
theorem toSend_ofTake {l : LoopState} {e : SendEvent} (h : LoopState.takeEvent l = some e) :
    (SelectEvent.ofTake e).toSend = some e := by
  unfold LoopState.takeEvent at h
  split at h
  · cases h; rfl
  · cases h; rfl
  · split at h <;> cases h; rfl
  · split at h <;> cases h; rfl

/-- A step of the `select`s on anything but the channel, forgetting the queues and the timer, is
a step of `LoopState` on a packet, the timer or a write, or leaves it alone. -/
theorem sendStep_refines {s t : SelectLoop} {e : SelectEvent} (h : sendStep v s e = some t)
    (he : ∀ e', e.toSend = some e' → e' = .timer ∨ ∃ o, e' = .write o) :
    t.toLoop = s.toLoop ∨
      ∃ e', LoopState.step v parse responseFor domain s.toLoop e' = some t.toLoop := by
  obtain ⟨u, hu, rfl⟩ := Option.map_eq_some'.mp h
  have hloop : ∀ e' : SendEvent, SendState.step v s.send.send e' = some u.send →
      LoopState.sendStep v s.toLoop e' = some ({ s with send := u } : SelectLoop).toLoop :=
    fun e' h' => by simp [LoopState.sendStep, toLoop, h']
  rcases SelectState.step_cases hu with ⟨e', w, he', hw, rfl⟩ | ⟨-, rfl⟩ |
    ⟨-, -, -, -, -, p, -, -, -, hp, -⟩ | ⟨-, rfl⟩ | ⟨-, -, -, rfl⟩
  · rcases he e' he' with rfl | ⟨o, rfl⟩
    · exact .inr ⟨.timer, hloop _ hw⟩
    · exact .inr ⟨.write o, hloop _ hw⟩
  · exact .inl rfl
  · exact .inr ⟨.packet p, hloop _ hp⟩
  · exact .inl rfl
  · exact .inl rfl

/-- Forgetting the queues and the timer, every step is a step of `LoopState` or leaves it
alone. -/
theorem step_refines {s t : SelectLoop} {e : SelectLoopEvent}
    (h : step v parse responseFor domain s e = some t) :
    t.toLoop = s.toLoop ∨
      ∃ e', LoopState.step v parse responseFor domain s.toLoop e' = some t.toLoop := by
  cases e with
  | read r =>
    obtain ⟨⟨log, closed, send⟩, hl, rfl⟩ := Option.map_eq_some'.mp h
    obtain rfl : send = s.send.send := read_send hl
    exact .inr ⟨.read r, hl⟩
  | take =>
    obtain ⟨e, he, hs⟩ := Option.bind_eq_some.mp h
    obtain ⟨u, hu, rfl⟩ := Option.map_eq_some'.mp hs
    refine .inr ⟨.take, ?_⟩
    rcases SelectState.step_cases hu with ⟨e', w, he', hw, rfl⟩ | ⟨h1, -⟩ | ⟨h1, -⟩ | ⟨h1, -⟩ |
      ⟨c, p, h1, -⟩
    · obtain rfl := Option.some.inj ((toSend_ofTake he).symm.trans he')
      have hw' : SendState.step v s.toLoop.send e = some w := hw
      simp only [LoopState.step, he, Option.some_bind, LoopState.sendStep, hw', Option.map_some']
      rfl
    all_goals cases e <;> cases h1
  | poll | expire | enqueue _ _ => exact sendStep_refines h fun _ h' => by cases h'
  | fire => exact sendStep_refines h fun _ h' => .inl (Option.some.inj h').symm
  | write o => exact sendStep_refines h fun _ h' => .inr ⟨o, (Option.some.inj h').symm⟩

/-- Every step moves the `select`s by one of their steps, or leaves them alone. -/
theorem step_send {s t : SelectLoop} {e : SelectLoopEvent}
    (h : step v parse responseFor domain s e = some t) :
    t.send = s.send ∨ ∃ e', SelectState.step v s.send e' = some t.send := by
  have hsend : ∀ {e'}, sendStep v s e' = some t →
      ∃ e', SelectState.step v s.send e' = some t.send :=
    fun h' => by obtain ⟨u, hu, rfl⟩ := Option.map_eq_some'.mp h'; exact ⟨_, hu⟩
  cases e with
  | read r => obtain ⟨l, -, rfl⟩ := Option.map_eq_some'.mp h; exact .inl rfl
  | take => obtain ⟨e, -, hs⟩ := Option.bind_eq_some.mp h; exact .inr (hsend hs)
  | poll | fire | expire | write _ | enqueue _ _ => exact .inr (hsend h)

end Refinement

/-- The invariant of every reachable state: `LoopState.Inv` of what it forgets to, and every
client's queue served first in, first out. -/
structure Inv (s : SelectLoop) : Prop where
  loop : LoopState.Inv v responseFor domain s.toLoop
  fifo : SelectState.Fifo s.send

section Invariant

variable {v parse responseFor domain}

theorem inv_init : Inv v responseFor domain init := ⟨LoopState.inv_init, fun _ => rfl⟩

theorem inv_step {s t : SelectLoop} {e : SelectLoopEvent}
    (h : step v parse responseFor domain s e = some t) (hi : Inv v responseFor domain s) :
    Inv v responseFor domain t := by
  refine ⟨?_, ?_⟩
  · rcases step_refines h with h' | ⟨e', h'⟩
    · exact h' ▸ hi.loop
    · exact LoopState.inv_step h' hi.loop
  · rcases step_send h with h' | ⟨e', h'⟩
    · exact h' ▸ hi.fifo
    · exact SelectState.fifo_step h' hi.fifo

theorem inv_run {s t : SelectLoop} {es : List SelectLoopEvent}
    (h : run v parse responseFor domain s es = some t) (hi : Inv v responseFor domain s) :
    Inv v responseFor domain t := by
  induction es generalizing s with
  | nil => cases h; exact hi
  | cons e es ih =>
    cases hs : step v parse responseFor domain s e with
    | none => simp [run, hs] at h
    | some s' => exact ih (by rwa [run_cons_of_step hs] at h) (inv_step hs hi)

/-- At the top of `sendLoop`'s loop with the channel empty, every record `recvLoop` has sent is
serialized, in order. -/
theorem Inv.replies_of_drained {s : SelectLoop} (hi : Inv v responseFor domain s)
    (hidle : s.send.send.phase = .idle) (hch : s.channel = []) :
    s.send.send.replies.map (·.record) = s.log.sent := by
  have hn : s.send.send.nextRec = none := hi.loop.send.unheld (.inl hidle)
  have hserved : s.send.send.replies.map (·.record) ++ s.send.send.pending = s.send.send.received :=
    hi.loop.send.served
  have hsent : s.log.sent = s.send.send.received ++ s.channel := LoopState.channel_eq hi.loop.fifo
  simpa [SendState.pending, SendState.current, hidle, hn, hch, hsent] using hserved

end Invariant

/-! ## Draining the channel -/

/-- The steps of `loop` that are `sendLoop`'s own: receives on the channel, polls, the timer
firing, `maxResponseDelay` passing and successful writes. -/
def Own (e : SelectLoopEvent) : Prop :=
  e = .take ∨ e = .poll ∨ e = .fire ∨ e = .expire ∨ e = .write .ok

/-- At most `n` of `sendLoop`'s own steps take it to the top of its loop with the channel empty,
`recvLoop` having done nothing. -/
def Drains (s : SelectLoop) (n : Nat) : Prop :=
  ∃ es t, es.length ≤ n ∧ (∀ e ∈ es, Own e) ∧ run v parse responseFor domain s es = some t ∧
    t.send.send.phase = .idle ∧ t.channel = [] ∧ t.log = s.log

section Draining

variable {v parse responseFor domain}

theorem Drains.append {s t : SelectLoop} {es : List SelectLoopEvent} {n : Nat}
    (hes : ∀ e ∈ es, Own e) (h : run v parse responseFor domain s es = some t)
    (hlog : t.log = s.log) (ht : Drains v parse responseFor domain t n) :
    Drains v parse responseFor domain s (es.length + n) :=
  let ⟨es', u, hl, hes', hr, hidle, hch, hu⟩ := ht
  ⟨es ++ es', u, by simp only [List.length_append]; omega,
    fun e he => (List.mem_append.mp he).elim (hes e) (hes' e), by rw [run_append h]; exact hr,
    hidle, hch, hu.trans hlog⟩

theorem Drains.mono {s : SelectLoop} {m n : Nat} (h : Drains v parse responseFor domain s m)
    (hmn : m ≤ n) : Drains v parse responseFor domain s n :=
  let ⟨es, t, hl, hr⟩ := h
  ⟨es, t, hl.trans hmn, hr⟩

/-- A run of the `select`s on `sendLoop`'s own events is a run of `loop`. -/
theorem run_ofSelect {s : SelectLoop} {es : List SelectEvent} {u : SelectState}
    (h : SelectState.run v s.send es = some u)
    (hes : ∀ e ∈ es, e = .poll ∨ e = .fire ∨ e = .expire ∨ e = .write .ok) :
    run v parse responseFor domain s (es.map SelectLoopEvent.ofSelect) = some { s with send := u } ∧
      ∀ e ∈ es.map SelectLoopEvent.ofSelect, Own e := by
  induction es generalizing s with
  | nil => cases h; exact ⟨rfl, nofun⟩
  | cons e es ih =>
    cases hu : SelectState.step v s.send e with
    | none => simp [SelectState.run, hu] at h
    | some w =>
      rw [SelectState.run_cons_of_step hu] at h
      obtain ⟨hr, hown⟩ := ih (s := { s with send := w }) h
        fun e he => hes e (List.mem_cons_of_mem _ he)
      have hstep : step v parse responseFor domain s (SelectLoopEvent.ofSelect e) =
          some { s with send := w } ∧ Own (SelectLoopEvent.ofSelect e) := by
        rcases hes e (List.mem_cons_self _ _) with rfl | rfl | rfl | rfl <;>
          simp [step, sendStep, hu, SelectLoopEvent.ofSelect, Own]
      rw [List.map_cons, run_cons_of_step hstep.1]
      exact ⟨hr, List.forall_mem_cons.mpr ⟨hstep.2, hown⟩⟩

/-- Where the `select`s settle by `sendLoop`'s own events, `loop` settles by the same steps,
with the channel unchanged and packets only taken off the queues. -/
theorem settles_lift {s : SelectLoop} {n : Nat} (h : SelectState.Settles v s.send n)
    (hret : ∀ b, s.send.send.phase ≠ .returned b) :
    ∃ es u, es.length ≤ n ∧ (∀ e ∈ es, Own e) ∧
      run v parse responseFor domain s es = some { s with send := u } ∧ u.send.phase = .idle ∧
      ({ s with send := u } : SelectLoop).channel = s.channel ∧
      List.Sublist (SelectState.queued u) (SelectState.queued s.send) := by
  obtain ⟨es, u, hl, hes, hu, hidle⟩ := h
  obtain ⟨hrec, -, hen, hq⟩ := SelectState.run_own hu hes hret
  obtain ⟨hr, hown⟩ := (run_ofSelect hu hes : run v parse responseFor domain _ _ = _ ∧ _)
  exact ⟨_, u, by simpa using hl, hown, hr, hidle,
    by simp only [channel, LoopState.channel, toLoop, hrec], SelectState.queued_sublist hen hq⟩

/-- At the top of the loop, a receive on the channel takes its oldest record and starts on it,
the others staying in the channel. -/
theorem step_take_idle {s : SelectLoop} {r : Record} {rest : List Record}
    (hidle : s.send.send.phase = .idle) (hch : s.channel = r :: rest) :
    ∃ u, u = SendState.start v { s.send.send with received := s.send.send.received ++ [r] } r ∧
      step v parse responseFor domain s .take = some { s with send := SelectState.leave s.send u } ∧
      ({ s with send := SelectState.leave s.send u } : SelectLoop).channel = rest := by
  have htake : LoopState.takeEvent s.toLoop = some (.recv r) := by
    have hp : s.toLoop.send.phase = .idle := hidle
    unfold LoopState.takeEvent
    rw [show s.toLoop.channel = r :: rest from hch, hp]
  refine ⟨_, rfl, by simp [step, htake, sendStep, SelectEvent.ofTake, SelectState.step,
    SendState.step, hidle], ?_⟩
  simp only [channel, LoopState.channel, toLoop, SelectState.leave_send, SendState.start_received,
    List.length_append, List.length_singleton] at hch ⊢
  rw [← List.drop_drop, hch]
  rfl

/-- At the top of the loop with `n` records in the channel, `sendLoop` takes and serves each in
turn: a receive on the channel, then at most the packets queued and four steps. -/
theorem drains_idle {Q : Nat} : ∀ n (s : SelectLoop), Inv v responseFor domain s →
    s.send.send.phase = .idle → s.channel.length = n → (SelectState.queued s.send).length ≤ Q →
    (∀ p ∈ SelectState.queued s.send, p.length < 65536) →
    Drains v parse responseFor domain s (n * (Q + 5))
  | 0, s, _, hidle, hn, _, _ =>
    ⟨[], s, Nat.zero_le _, nofun, rfl, hidle, List.eq_nil_of_length_eq_zero hn, rfl⟩
  | n + 1, s, hi, hidle, hn, hQ, hlen => by
    obtain ⟨r, rest, hch⟩ := List.exists_cons_of_length_eq_add_one hn
    obtain ⟨u, hu, hstep, hch1⟩ := step_take_idle hidle hch
    have hi1 := inv_step hstep hi
    -- the record served from its queue
    obtain ⟨es, w, hl, hown, hr, hidle', hch2, hsub⟩ := settles_lift
      (SelectState.settles_start hu (by exact hi.loop.send.unheld (.inl hidle)) hi1.loop.send
        fun p hp => hlen p (hi1.fifo.mem_queued hp))
      fun b hb => SendState.start_phase _ _ b (hu ▸ hb)
    have hd := drains_idle n _ (inv_run hr hi1) hidle' (by rw [hch2, hch1]; simpa [hch] using hn)
      (hsub.length_le.trans hQ) fun p hp => hlen p (hsub.subset hp)
    refine (Drains.append (List.forall_mem_cons.mpr ⟨.inl rfl, hown⟩)
      ((run_cons_of_step hstep es).trans hr) rfl hd).mono ?_
    have hl' : es.length ≤ (s.send.queues r.clientID).length + 4 := hl
    have hqr := (hi.fifo.queue_length_le r.clientID).trans hQ
    simp only [List.length_cons, Nat.succ_mul]
    omega

end Draining

/-! ## Over every run -/

/-- Over every run of `loop`, from every state short of `sendLoop` having returned or panicked,
with no packet of 65536 bytes or more queued: `sendLoop`'s own steps alone (receives on the
channel, polls of the outer `select`, the timer firing in the inner one, `maxResponseDelay`
passing, successful writes) empty the channel and take `sendLoop` to the top of its loop, every
record `recvLoop` has sent serialized in order. It takes at most five more steps than there are
packets queued to serve what `sendLoop` holds, and as many again for each record in the
channel. -/
theorem loop_drains (v : Variant) (parse : List UInt8 → Option Message)
    (responseFor : Message → Name → Option Message × ClientID × List UInt8) (domain : Name)
    (es : List SelectLoopEvent) (s : SelectLoop)
    (h : run v parse responseFor domain init es = some s)
    (hret : ∀ b, s.send.send.phase ≠ .returned b)
    (hpanic : ∀ rec ps, s.send.send.phase ≠ .panicked rec ps)
    (hlen : ∀ p ∈ SelectState.queued s.send, p.length < 65536) :
    ∃ es' t, es'.length ≤ (s.channel.length + 1) * ((SelectState.queued s.send).length + 5) ∧
      (∀ e ∈ es', Own e) ∧ run v parse responseFor domain s es' = some t ∧
      t.send.send.phase = .idle ∧ t.channel = [] ∧
      t.send.send.replies.map (·.record) = s.log.sent := by
  have hi := inv_run h inv_init
  -- what `sendLoop` holds
  obtain ⟨es1, u, hl1, hown1, hr1, hidle, hch, hsub⟩ := settles_lift (SelectState.settles_of_inv
    hi.loop.send hret hpanic hi.fifo.queue_length_le fun _ _ hp => hlen _ (hi.fifo.mem_queued hp))
    hret
  have hi1 := inv_run hr1 hi
  -- the records in the channel
  obtain ⟨es', t, hl, hown, hr, hidle', hch', hlog⟩ := Drains.append hown1 hr1 rfl
    (drains_idle s.channel.length _ hi1 hidle (by rw [hch]) hsub.length_le
      fun p hp => hlen p (hsub.subset hp))
  refine ⟨es', t, hl.trans ?_, hown, hr, hidle', hch', ?_⟩
  · rw [Nat.add_one_mul]
    omega
  · rw [(inv_run hr hi).replies_of_drained hidle' hch', hlog]

/-- A `responseFor` that answers every query with the NOERROR response of `rootRecord`, for the
zero ClientID, carrying no packet. -/
def rootResponder (_ : Message) (_ : Name) : Option Message × ClientID × List UInt8 :=
  (some SendState.rootRecord.resp, ClientID.zero, [])

/-- A packet queued for the zero ClientID, then two queries read from address 1. -/
def twoRead : List SelectLoopEvent :=
  [.enqueue ClientID.zero [1], .read (.datagram [] ⟨1⟩), .read (.datagram [] ⟨1⟩)]

/-- Two records in the channel and a packet queued for their client: each record is taken,
bundled with what its queue holds, and written. -/
theorem loop_drains_two :
    ∃ s, run SendState.smallVariant (fun _ => some SendState.rootRecord.resp) rootResponder
        Name.root init twoRead = some s ∧ s.channel.length = 2 ∧
      (∀ b, s.send.send.phase ≠ .returned b) ∧ (∀ rec ps, s.send.send.phase ≠ .panicked rec ps) ∧
      (∀ p ∈ SelectState.queued s.send, p.length < 65536) ∧
      ∃ es' t, es'.length ≤ (s.channel.length + 1) * ((SelectState.queued s.send).length + 5) ∧
        (∀ e ∈ es', Own e) ∧
        run SendState.smallVariant (fun _ => some SendState.rootRecord.resp) rootResponder
          Name.root s es' = some t ∧
        t.send.send.phase = .idle ∧ t.channel = [] ∧
        t.send.send.replies.map (·.record) = s.log.sent := by
  obtain ⟨s, hs, hch, hidle, hq⟩ := exists_of_any
    (o := run SendState.smallVariant (fun _ => some SendState.rootRecord.resp) rootResponder
      Name.root init twoRead)
    (p := fun s => s.channel.length = 2 ∧ s.send.send.phase = .idle ∧
      SelectState.queued s.send = [[1]]) (by decide)
  have hret : ∀ b, s.send.send.phase ≠ .returned b := fun b h => by rw [hidle] at h; cases h
  have hpanic : ∀ rec ps, s.send.send.phase ≠ .panicked rec ps := fun _ _ h => by
    rw [hidle] at h; cases h
  have hlen : ∀ p ∈ SelectState.queued s.send, p.length < 65536 := by simp [hq]
  exact ⟨s, hs, hch, hret, hpanic, hlen, loop_drains _ _ _ _ _ s hs hret hpanic hlen⟩

end SelectLoop

end Dnstt
