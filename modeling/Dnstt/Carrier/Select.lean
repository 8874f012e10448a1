import Dnstt.Carrier.SendLoop

/-!
# The `select`s of `sendLoop`

`SendState.step` lets the environment choose, in the bundling loop, between a ready packet, a
new record and the timer. The code chooses by two `select`s. The outer one takes a packet from
`OutgoingQueue(rec.ClientID)` when one is ready and otherwise falls to `default`, where the inner
one waits for a record on the channel or for the timer; once a packet is taken,
`timer.Reset(0)` makes the timer due. Here the queues, the timer and the `select` that
`sendLoop` is in are part of the state, and the sessions filling the queues and the passing of
`maxResponseDelay` are events.

* `run_refines`: every state the model reaches is, forgetting the queues and the timer, a state
  `SendState.run` reaches, so `SendState.Inv` holds of it (`inv_of_run`); `fifo_run`: for each
  client, the packets put on its queue are those `sendLoop` took from it, in order, followed by
  those still queued.
* `select_packets_conserved`: up to order, every nonempty packet put on a queue is in a bundle
  passed to `WireFormat`, in the bundle in hand, in `nextP` or still queued.
* `polls_fill_bundle`: from a bundle in hand, the polls of the outer `select` take the longest
  run of the ready packets that fits, in queue order, and then either wait in the inner `select`
  or finish the bundle with the first packet that does not fit saved in `nextP`.
* `bundle_closes`: from every state reached while bundling, polls and the timer close the bundle
  within the queue's length and three steps; `maxResponseDelay` has to pass only when the timer
  is not due and no packet is ready.
* `select_settles`: from every state reached, short of having returned or panicked, `sendLoop`'s
  own events take it back to the top of the loop within five more steps than there are packets
  queued, every record received serialized.
-/

namespace Dnstt

open Dns

/-- What happens around the `select`s of `sendLoop`. -/
inductive SelectEvent
  /-- `<-ch` at the top of the loop yields a record. -/
  | recv (r : Record)
  /-- `<-ch` at the top of the loop finds the channel closed. -/
  | closed
  /-- The outer `select` of the bundling loop: the packet case when `OutgoingQueue(rec.ClientID)`
  has a packet ready, else `default`. -/
  | poll
  /-- In the inner `select`, `nextRec = <-ch` yields a record, or nil on the closed channel. -/
  | newRecord (r : Option Record)
  /-- In the inner `select`, `<-timer.C`. -/
  | fire
  /-- `WriteTo` returns. -/
  | write (o : WriteOutcome)
  /-- `maxResponseDelay` passes: the timer of the bundle expires. -/
  | expire
  /-- A session puts a packet on `OutgoingQueue(c)`. -/
  | enqueue (c : ClientID) (p : List UInt8)

/-- The event of `SendState` that a step on `e` carries out through `leave`: none for a poll,
which takes a packet or falls to `default`, for `maxResponseDelay` passing and for a session's
packet. -/
def SelectEvent.toSend : SelectEvent → Option SendEvent
  | .recv r => some (.recv r)
  | .closed => some .closed
  | .newRecord r => some (.newRecord r)
  | .fire => some .timer
  | .write o => some (.write o)
  | _ => none

structure SelectState where
  send : SendState
  /-- The packets ready on each `OutgoingQueue`, oldest first. -/
  queues : ClientID → List (List UInt8)
  /-- In the inner `select`: the outer one found the queue empty. -/
  waiting : Bool
  /-- `timer.C` is ready: `maxResponseDelay` has passed, or `timer.Reset(0)` has run. -/
  due : Bool
  /-- The packets put on the queues, with the ClientID of the queue. -/
  enqueued : List (ClientID × List UInt8)

namespace SelectState

/-- `sendLoop` before its first iteration, every queue empty. -/
def init : SelectState := ⟨SendState.init, fun _ => [], false, false, []⟩

/-- Leaving the bundling loop (`timer.Stop()`), or entering a new one with a new timer: outside
a bundle the inner `select` and the timer play no part. -/
def leave (s : SelectState) (send : SendState) : SelectState :=
  { s with send, waiting := false, due := false }

@[simp] theorem leave_send (s : SelectState) (send : SendState) : (leave s send).send = send := rfl

@[simp] theorem leave_queues (s : SelectState) (send : SendState) :
    (leave s send).queues = s.queues := rfl

@[simp] theorem leave_enqueued (s : SelectState) (send : SendState) :
    (leave s send).enqueued = s.enqueued := rfl

variable (v : Variant)

/-- One step; `none` when the event cannot happen where `sendLoop` is. A packet that does not
fit, or that makes `sendLoop` panic, ends the bundle; one that fits keeps it open with the timer
reset to zero. -/
def step (s : SelectState) : SelectEvent → Option SelectState
  | .recv r => (SendState.step v s.send (.recv r)).map (leave s)
  | .closed => (SendState.step v s.send .closed).map (leave s)
  | .poll =>
    match s.send.phase, s.waiting with
    | .bundling rec _ _ limit, false =>
      match s.queues rec.clientID with
      | [] => some { s with waiting := true }
      | p :: rest =>
        let s := { s with queues := Function.update s.queues rec.clientID rest }
        (SendState.step v s.send (.packet p)).map fun send =>
          if p.length < 65536 ∧ 2 + p.length ≤ limit then { s with send, due := true }
          else leave s send
    | _, _ => none
  | .newRecord r => if s.waiting then (SendState.step v s.send (.newRecord r)).map (leave s) else none
  | .fire => if s.waiting && s.due then (SendState.step v s.send .timer).map (leave s) else none
  | .write o => (SendState.step v s.send (.write o)).map (leave s)
  | .expire =>
    match s.send.phase with
    | .bundling .. => some { s with due := true }
    | _ => none
  | .enqueue c p =>
    some { s with
      queues := Function.update s.queues c (s.queues c ++ [p])
      enqueued := s.enqueued ++ [(c, p)] }

/-- The model through a list of events; `none` if one of them cannot happen. -/
def run (s : SelectState) (es : List SelectEvent) : Option SelectState := es.foldlM (step v) s

/-! ## Steps -/

section Steps

variable {v} {s : SelectState}

theorem run_cons_of_step {e : SelectEvent} {t : SelectState} (h : step v s e = some t)
    (es : List SelectEvent) : run v s (e :: es) = run v t es := by
  simp [run, List.foldlM_cons, h]

theorem run_append {es es' : List SelectEvent} {t : SelectState} (h : run v s es = some t) :
    run v s (es ++ es') = run v t es' := by
  simp only [run, List.foldlM_append] at h ⊢
  simp [h]

theorem map_leave {o : Option SendState} {t : SelectState} (h : o.map (leave s) = some t) :
    ∃ u, o = some u ∧ t = leave s u := by
  cases o with
  | none => cases h
  | some u => exact ⟨u, rfl, (Option.some.inj h).symm⟩

/-- The inner `select` is entered when the queue is empty. -/
theorem step_poll_empty {rec : Record} {q : Question} {ps : List (List UInt8)} {limit : Int}
    (hp : s.send.phase = .bundling rec q ps limit) (hw : s.waiting = false)
    (hq : s.queues rec.clientID = []) : step v s .poll = some { s with waiting := true } := by
  simp [step, hp, hw, hq]

/-- A ready packet that fits is bundled, and the timer is reset to zero. -/
theorem step_poll_fits {rec : Record} {q : Question} {ps : List (List UInt8)} {limit : Int}
    (hp : s.send.phase = .bundling rec q ps limit) (hw : s.waiting = false)
    {p : List UInt8} {rest : List (List UInt8)} (hq : s.queues rec.clientID = p :: rest)
    (hlen : p.length < 65536) (hl : 2 + p.length ≤ limit) :
    step v s .poll = some { s with
      queues := Function.update s.queues rec.clientID rest, due := true
      send := { s.send with
        phase := .bundling rec q (ps ++ [p]) (limit - (2 + p.length))
        taken := s.send.taken ++ [(rec.clientID, p)] } } := by
  simp [step, hp, hw, hq, SendState.step_packet_fits hp hlen hl, hlen, hl]

/-- A ready packet that does not fit ends the bundle and is saved in `nextP`. -/
theorem step_poll_overflow {rec : Record} {q : Question} {ps : List (List UInt8)} {limit : Int}
    (hp : s.send.phase = .bundling rec q ps limit) (hw : s.waiting = false)
    {p : List UInt8} {rest : List (List UInt8)} (hq : s.queues rec.clientID = p :: rest)
    (hlen : p.length < 65536) (hl : limit < 2 + p.length) :
    step v s .poll = some (leave { s with queues := Function.update s.queues rec.clientID rest }
      (SendState.finishBundle v { s.send with
        taken := s.send.taken ++ [(rec.clientID, p)], nextP := p } rec q ps)) := by
  simp [step, hp, hw, hq, SendState.step_packet_overflow hp hlen hl, not_le.mpr hl]

theorem step_fire {rec : Record} {q : Question} {ps : List (List UInt8)} {limit : Int}
    (hp : s.send.phase = .bundling rec q ps limit) (hw : s.waiting = true) (hd : s.due = true) :
    step v s .fire = some (leave s (SendState.finishBundle v s.send rec q ps)) := by
  simp [step, hw, hd, SendState.step_timer hp]

theorem step_expire {rec : Record} {q : Question} {ps : List (List UInt8)} {limit : Int}
    (hp : s.send.phase = .bundling rec q ps limit) : step v s .expire = some { s with due := true } := by
  simp [step, hp]

end Steps

/-! ## Refinement -/

section Refinement

variable {v}

theorem toSend_ne_packet {e : SelectEvent} {e' : SendEvent} (h : e.toSend = some e') (p : List UInt8) :
    e' ≠ .packet p := by
  cases e <;> simp only [SelectEvent.toSend, reduceCtorEq, Option.some.injEq] at h <;> subst h <;> nofun

/-- What a step can do: the step of `SendState` its event stands for, leaving the bundling loop;
a poll falling to `default`; a poll taking a packet from the head of the record's queue; the
timer expiring; or a session putting a packet on a queue. -/
theorem step_cases {s t : SelectState} {e : SelectEvent} (h : step v s e = some t) :
    (∃ e' u, e.toSend = some e' ∧ SendState.step v s.send e' = some u ∧ t = leave s u) ∨
    (e = .poll ∧ t = { s with waiting := true }) ∨
    (e = .poll ∧ ∃ rec q ps limit p rest, s.send.phase = .bundling rec q ps limit ∧
      s.queues rec.clientID = p :: rest ∧ SendState.step v s.send (.packet p) = some t.send ∧
      t.queues = Function.update s.queues rec.clientID rest ∧ t.enqueued = s.enqueued) ∨
    (e = .expire ∧ t = { s with due := true }) ∨
    ∃ c p, e = .enqueue c p ∧ t = { s with
      queues := Function.update s.queues c (s.queues c ++ [p]), enqueued := s.enqueued ++ [(c, p)] } := by
  have hleave : ∀ {e' o}, o.map (leave s) = some t → SendState.step v s.send e' = o →
      e.toSend = some e' → ∃ e' u, e.toSend = some e' ∧ SendState.step v s.send e' = some u ∧
        t = leave s u := fun h ho he =>
    let ⟨u, hu, ht⟩ := map_leave h
    ⟨_, u, he, ho.trans hu, ht⟩
  cases e with
  | recv r | closed | write o => exact .inl (hleave h rfl rfl)
  | newRecord r | fire =>
    simp only [step] at h
    split at h
    · exact .inl (hleave h rfl rfl)
    · cases h
  | poll =>
    simp only [step] at h
    split at h
    next rec q ps limit hp _ =>
      split at h
      · cases h
        exact .inr (.inl ⟨rfl, rfl⟩)
      next p rest hq =>
        obtain ⟨u, hu, rfl⟩ := Option.map_eq_some'.mp h
        refine .inr (.inr (.inl ⟨rfl, rec, q, ps, limit, p, rest, hp, hq, ?_⟩))
        split <;> exact ⟨hu, rfl, rfl⟩
    · cases h
  | expire =>
    simp only [step] at h
    split at h
    · cases h
      exact .inr (.inr (.inr (.inl ⟨rfl, rfl⟩)))
    · cases h
  | enqueue c p =>
    cases h
    exact .inr (.inr (.inr (.inr ⟨c, p, rfl, rfl⟩)))

/-- Each step is a step of `SendState`, or leaves it alone: a poll that finds the queue empty,
the timer expiring and a packet put on a queue change nothing `SendState` records. -/
theorem step_refines {s t : SelectState} {e : SelectEvent} (h : step v s e = some t) :
    t.send = s.send ∨ ∃ e', SendState.step v s.send e' = some t.send := by
  rcases step_cases h with ⟨e', u, -, hu, rfl⟩ | ⟨-, rfl⟩ | ⟨-, -, -, -, -, p, -, -, -, hu, -⟩ | ⟨-, rfl⟩ |
    ⟨c, p, -, rfl⟩
  · exact .inr ⟨e', hu⟩
  · exact .inl rfl
  · exact .inr ⟨_, hu⟩
  · exact .inl rfl
  · exact .inl rfl

theorem run_refines {s t : SelectState} {es : List SelectEvent} (h : run v s es = some t) :
    ∃ es', SendState.run v s.send es' = some t.send := by
  induction es generalizing s with
  | nil => cases h; exact ⟨[], rfl⟩
  | cons e es ih =>
    cases hs : step v s e with
    | none => simp [run, hs] at h
    | some u =>
      rw [run_cons_of_step hs] at h
      obtain ⟨es', hes'⟩ := ih h
      rcases step_refines hs with hu | ⟨e', he'⟩
      · exact ⟨es', hu ▸ hes'⟩
      · exact ⟨e' :: es', by rw [SendState.run_cons_of_step he']; exact hes'⟩

theorem inv_send_of_run {s t : SelectState} {es : List SelectEvent} (hi : SendState.Inv v s.send)
    (h : run v s es = some t) : SendState.Inv v t.send :=
  let ⟨_, h'⟩ := run_refines h
  SendState.inv_run h' hi

theorem inv_of_run {es : List SelectEvent} {t : SelectState} (h : run v init es = some t) :
    SendState.Inv v t.send :=
  inv_send_of_run SendState.inv_init h

end Refinement

/-! ## The queues -/

section Queues

variable {v}

/-- For each client, the packets put on its queue are those taken from it, in order, then those
still queued. -/
def Fifo (s : SelectState) : Prop :=
  ∀ c, (s.send.taken.filter (·.1 = c)).map (·.2) ++ s.queues c =
    (s.enqueued.filter (·.1 = c)).map (·.2)

/-- Taking the head of one client's queue into `taken` keeps `Fifo`. -/
theorem Fifo.pop {s : SelectState} (hf : Fifo s) {c : ClientID} {p : List UInt8}
    {rest : List (List UInt8)} (hq : s.queues c = p :: rest) (c' : ClientID) :
    ((s.send.taken ++ [(c, p)]).filter (·.1 = c')).map (·.2) ++
      Function.update s.queues c rest c' = (s.enqueued.filter (·.1 = c')).map (·.2) := by
  rw [← hf c']
  by_cases hc : c = c'
  · subst hc
    simp [hq]
  · simp [hc, Function.update_noteq (Ne.symm hc)]

theorem fifo_step {s t : SelectState} {e : SelectEvent} (h : step v s e = some t) (hf : Fifo s) :
    Fifo t := by
  rcases step_cases h with ⟨e', u, he, hu, rfl⟩ | ⟨-, rfl⟩ |
    ⟨-, rec, q, ps, limit, p, rest, hp, hq, hu, hqs, hen⟩ | ⟨-, rfl⟩ | ⟨c, p, -, rfl⟩
  · intro c
    simpa only [leave_send, leave_queues, leave_enqueued, SendState.step_taken hu (toSend_ne_packet he)]
      using hf c
  · exact hf
  · intro c
    rw [SendState.step_packet_taken hp hu, hqs, hen]
    exact Fifo.pop hf hq c
  · exact hf
  · intro c'
    rw [List.filter_append, List.map_append, ← hf c']
    by_cases hc : c = c'
    · subst hc
      simp
    · simp [hc, Function.update_noteq (Ne.symm hc)]

theorem fifo_run {s t : SelectState} {es : List SelectEvent} (h : run v s es = some t)
    (hf : Fifo s) : Fifo t := by
  induction es generalizing s with
  | nil => cases h; exact hf
  | cons e es ih =>
    cases hs : step v s e with
    | none => simp [run, hs] at h
    | some u => exact ih (by rwa [run_cons_of_step hs] at h) (fifo_step hs hf)

/-- A list of pairs is, up to order, its entries grouped by their first component, over any list
of distinct first components that covers them. -/
theorem perm_flatMap_filter {α β : Type} [DecidableEq α] (cs : List α) (hcs : cs.Nodup) :
    ∀ l : List (α × β), (∀ x ∈ l, x.1 ∈ cs) → l.Perm (cs.flatMap fun c => l.filter (·.1 = c)) := by
  induction cs with
  | nil =>
    intro l hl
    rw [List.eq_nil_iff_forall_not_mem.mpr fun x hx => List.not_mem_nil _ (hl x hx)]
    exact List.Perm.nil
  | cons c cs ih =>
    intro l hl
    obtain ⟨hc, hcs⟩ := List.nodup_cons.mp hcs
    have hrest : (cs.flatMap fun c' => (l.filter fun x => !decide (x.1 = c)).filter (·.1 = c')) =
        cs.flatMap fun c' => l.filter (·.1 = c') := by
      refine List.flatMap_congr fun c' hc' => ?_
      rw [List.filter_filter]
      refine List.filter_congr fun x _ => ?_
      by_cases hx : x.1 = c' <;> simp [hx, show c' ≠ c from fun h => hc (h ▸ hc')]
    rw [List.flatMap_cons]
    refine (List.filter_append_perm (·.1 = c) l).symm.trans (List.Perm.append_left _ ?_)
    rw [← hrest]
    refine ih hcs _ fun x hx => ?_
    obtain ⟨hxl, hxc⟩ := List.mem_filter.mp hx
    exact (List.mem_cons.mp (hl x hxl)).resolve_left (by simpa using hxc)

/-- The packets still on the queues of the clients that have had any. -/
def queued (s : SelectState) : List (List UInt8) := (s.enqueued.map (·.1)).dedup.flatMap s.queues

/-- A client with a packet taken from its queue or still on it has had packets put on it. -/
theorem Fifo.mem_clients {s : SelectState} (hf : Fifo s) {c : ClientID} {p : List UInt8}
    (hp : p ∈ (s.send.taken.filter (·.1 = c)).map (·.2) ++ s.queues c) :
    c ∈ (s.enqueued.map (·.1)).dedup := by
  rw [hf c] at hp
  obtain ⟨y, hy, -⟩ := List.mem_map.mp hp
  obtain ⟨hy, hyc⟩ := List.mem_filter.mp hy
  exact List.mem_dedup.mpr (List.mem_map.mpr ⟨y, hy, of_decide_eq_true hyc⟩)

theorem Fifo.mem_queued {s : SelectState} (hf : Fifo s) {c : ClientID} {p : List UInt8}
    (hp : p ∈ s.queues c) : p ∈ queued s :=
  List.mem_flatMap.mpr ⟨c, hf.mem_clients (List.mem_append_right _ hp), hp⟩

/-- Every queue is part of `queued`. -/
theorem Fifo.queue_length_le {s : SelectState} (hf : Fifo s) (c : ClientID) :
    (s.queues c).length ≤ (queued s).length := by
  cases hq : s.queues c with
  | nil => exact Nat.zero_le _
  | cons p rest =>
    rw [← hq]
    exact (List.sublist_flatten_of_mem (List.mem_map_of_mem s.queues
      (hf.mem_clients (p := p) (by simp [hq])))).length_le

/-- With the same clients and each queue a suffix of what it was, the packets queued are part
of those queued before. -/
theorem queued_sublist {s t : SelectState} (hen : t.enqueued = s.enqueued)
    (hq : ∀ c, t.queues c <:+ s.queues c) : List.Sublist (queued t) (queued s) := by
  unfold queued
  rw [hen]
  induction (s.enqueued.map (·.1)).dedup with
  | nil => exact List.Sublist.slnil
  | cons c cs ih => simpa only [List.flatMap_cons] using (hq c).sublist.append ih

/-- Up to order, the packets put on the queues are those taken and those still queued. -/
theorem Fifo.enqueued_perm {s : SelectState} (hf : Fifo s) :
    (s.enqueued.map (·.2)).Perm (s.send.taken.map (·.2) ++ queued s) := by
  have hcover : ∀ x ∈ s.send.taken, x.1 ∈ (s.enqueued.map (·.1)).dedup := fun x hx =>
    hf.mem_clients (List.mem_append_left _ (List.mem_map_of_mem _ (List.mem_filter.mpr ⟨hx, by simp⟩)))
  have hnodup := List.nodup_dedup (s.enqueued.map (·.1))
  calc (s.enqueued.map (·.2)).Perm
        ((s.enqueued.map (·.1)).dedup.flatMap fun c => (s.enqueued.filter (·.1 = c)).map (·.2)) := by
        rw [← List.map_flatMap]
        exact (perm_flatMap_filter _ hnodup _ fun x hx =>
          List.mem_dedup.mpr (List.mem_map_of_mem _ hx)).map _
    _ = (s.enqueued.map (·.1)).dedup.flatMap fun c =>
          (s.send.taken.filter (·.1 = c)).map (·.2) ++ s.queues c :=
        List.flatMap_congr fun c _ => (hf c).symm
    List.Perm _ (((s.enqueued.map (·.1)).dedup.flatMap fun c =>
          (s.send.taken.filter (·.1 = c)).map (·.2)) ++ queued s) :=
        (List.flatMap_append_perm _ _ _).symm
    List.Perm _ (s.send.taken.map (·.2) ++ queued s) := by
        refine List.Perm.append_right _ ?_
        rw [← List.map_flatMap]
        exact ((perm_flatMap_filter _ hnodup _ hcover).map _).symm

end Queues

/-! ## Filling a bundle -/

/-- How many of the packets `xs`, from the first, fit one after the other in `limit` bytes,
each after its 2-byte length. -/
def fitCount (limit : Int) : List (List UInt8) → Nat
  | [] => 0
  | p :: xs => if 2 + p.length ≤ limit then fitCount (limit - (2 + p.length)) xs + 1 else 0

theorem fitCount_le (limit : Int) (xs : List (List UInt8)) : fitCount limit xs ≤ xs.length := by
  induction xs generalizing limit with
  | nil => exact Nat.le_refl _
  | cons p xs ih =>
    simp only [fitCount, List.length_cons]
    split
    · exact Nat.succ_le_succ (ih _)
    · exact Nat.zero_le _

/-- What the polls from a bundle in hand do, with the queue holding `xs`: take every packet and
wait in the inner `select`, or take the ones that fit and finish the bundle, the first that does
not fit saved in `nextP`. -/
inductive Filled (s t : SelectState) (rec : Record) (q : Question) (ps : List (List UInt8))
    (limit : Int) (xs : List (List UInt8)) : Prop
  | allFit (hn : fitCount limit xs = xs.length) (hr : t.send.replies = s.send.replies)
      (hp : t.send.phase = .bundling rec q (ps ++ xs) (limit - (bundleBytes xs).length))
      (hw : t.waiting = true) (hd : t.due = (s.due || !xs.isEmpty)) (hq : t.queues rec.clientID = [])
  | overflow (p : List UInt8) (rest : List (List UInt8)) (msg : Message)
      (hd : xs.drop (fitCount limit xs) = p :: rest)
      (hr : t.send.replies = s.send.replies ++ [⟨rec, some (ps ++ xs.take (fitCount limit xs)), msg⟩])
      (hn : t.send.nextP = p) (hq : t.queues rec.clientID = rest)

section Filling

variable {v}

/-- The polls from a bundle in hand, in the outer `select`, with the queue holding `xs`. -/
theorem polls_fill {rec : Record} {q : Question} {xs : List (List UInt8)}
    (hlen : ∀ p ∈ xs, p.length < 65536) :
    ∀ {s : SelectState} {ps : List (List UInt8)} {limit : Int}, SendState.Inv v s.send →
      s.send.phase = .bundling rec q ps limit → s.waiting = false → s.queues rec.clientID = xs →
      ∃ t, run v s (List.replicate (fitCount limit xs + 1) .poll) = some t ∧
        Filled s t rec q ps limit xs := by
  induction xs with
  | nil =>
    intro s ps limit _ hp hw hq
    exact ⟨_, run_cons_of_step (step_poll_empty hp hw hq) [],
      .allFit rfl rfl (by simpa using hp) rfl (by simp) hq⟩
  | cons p xs ih =>
    intro s ps limit hi hp hw hq
    have hp' : p.length < 65536 := hlen p (List.mem_cons_self _ _)
    by_cases hl : 2 + p.length ≤ limit
    · have hstep := step_poll_fits (v := v) hp hw hq hp' hl
      have hi' := SendState.inv_step (SendState.step_packet_fits hp hp' hl) hi
      obtain ⟨t, ht, hres⟩ := ih (fun x hx => hlen x (List.mem_cons_of_mem _ hx)) (s := { s with
          queues := Function.update s.queues rec.clientID xs, due := true
          send := { s.send with
            phase := .bundling rec q (ps ++ [p]) (limit - (2 + p.length))
            taken := s.send.taken ++ [(rec.clientID, p)] } }) hi' rfl hw (by simp)
      refine ⟨t, by simpa [fitCount, hl, List.replicate_succ, run_cons_of_step hstep] using ht, ?_⟩
      cases hres with
      | allFit hn hr hph hwt hd hqt =>
        refine .allFit (by simp [fitCount, hl, hn]) hr ?_ hwt (by simpa using hd) hqt
        rw [hph, bundleBytes_length, bundleBytes_length]
        simp only [List.append_assoc, List.singleton_append, List.map_cons, List.sum_cons]
        congr 1
        push_cast
        ring
      | overflow p' rest msg hd hr hnp hqt =>
        exact .overflow p' rest msg (by simpa [fitCount, hl] using hd)
          (by simpa [fitCount, hl] using hr) hnp hqt
    · have hstep := step_poll_overflow (v := v) hp hw hq hp' (not_le.mp hl)
      obtain ⟨msg, hr, hnp⟩ := SendState.finishBundle_of_none (v := v)
        (s := { s.send with taken := s.send.taken ++ [(rec.clientID, p)], nextP := p })
        (hi.bundling rec q ps limit hp).1 rec q ps
      exact ⟨_, by simpa [fitCount, hl] using run_cons_of_step hstep [],
        .overflow p xs msg (by simp [fitCount, hl]) (by simpa [fitCount, hl] using hr) hnp (by simp)⟩

/-- In the inner `select`, the timer closes the bundle, after `maxResponseDelay` when it is not
due yet. -/
theorem waiting_closes {s : SelectState} {rec : Record} {q : Question} {ps : List (List UInt8)}
    {limit : Int} (hi : SendState.Inv v s.send) (hp : s.send.phase = .bundling rec q ps limit)
    (hw : s.waiting = true) :
    ∃ es t msg, es.length ≤ 2 ∧ (∀ e ∈ es, e = .fire ∨ (e = .expire ∧ s.due = false)) ∧
      run v s es = some t ∧ t.send.replies = s.send.replies ++ [⟨rec, some ps, msg⟩] := by
  obtain ⟨msg, hr, -⟩ :=
    SendState.finishBundle_of_none (v := v) (hi.bundling rec q ps limit hp).1 rec q ps
  cases hd : s.due
  · refine ⟨[.expire, .fire], leave { s with due := true } (SendState.finishBundle v s.send rec q ps),
      msg, le_rfl, by simp, ?_, hr⟩
    rw [run_cons_of_step (step_expire hp)]
    exact run_cons_of_step (step_fire (s := { s with due := true }) hp hw rfl) []
  · exact ⟨[.fire], _, msg, by simp, by simp, run_cons_of_step (step_fire hp hw hd) [], hr⟩

theorem closes {s : SelectState} {rec : Record} {q : Question} {ps : List (List UInt8)}
    {limit : Int} (hi : SendState.Inv v s.send) (hp : s.send.phase = .bundling rec q ps limit)
    (hlen : ∀ p ∈ s.queues rec.clientID, p.length < 65536) :
    ∃ es t, es.length ≤ (s.queues rec.clientID).length + 3 ∧
      (∀ e ∈ es, e = .poll ∨ e = .fire ∨
        (e = .expire ∧ s.due = false ∧ (s.waiting = true ∨ s.queues rec.clientID = []))) ∧
      run v s es = some t ∧
      ∃ ps' msg, ps <+: ps' ∧ t.send.replies = s.send.replies ++ [⟨rec, some ps', msg⟩] := by
  cases hw : s.waiting
  case true =>
    obtain ⟨es, t, msg, hl, hes, ht, hr⟩ := waiting_closes hi hp hw
    refine ⟨es, t, by omega, fun e he => ?_, ht, ps, msg, List.prefix_refl _, hr⟩
    rcases hes e he with h | ⟨rfl, hd⟩
    · exact .inr (.inl h)
    · exact .inr (.inr ⟨rfl, hd, .inl rfl⟩)
  case false =>
    have hn := fitCount_le limit (s.queues rec.clientID)
    have hpolls : ∀ e ∈ List.replicate (fitCount limit (s.queues rec.clientID) + 1)
        SelectEvent.poll, e = .poll := fun _ => List.eq_of_mem_replicate
    obtain ⟨t₁, ht₁, hres⟩ := polls_fill hlen hi hp hw rfl
    cases hres with
    | allFit _ hr₁ hp₁ hw₁ hd₁ _ =>
      obtain ⟨es, t, msg, hl, hes, ht, hr⟩ :=
        waiting_closes (inv_send_of_run hi ht₁) hp₁ hw₁
      refine ⟨List.replicate (fitCount limit (s.queues rec.clientID) + 1) .poll ++ es, t,
        by simp; omega, fun e he => ?_, by rw [run_append ht₁]; exact ht,
        _, msg, List.prefix_append _ _, by rw [hr, hr₁]⟩
      rcases List.mem_append.mp he with he | he
      · exact .inl (hpolls e he)
      rcases hes e he with h | ⟨rfl, hd⟩
      · exact .inr (.inl h)
      · rw [hd₁, Bool.or_eq_false_iff, Bool.not_eq_false', List.isEmpty_iff] at hd
        exact .inr (.inr ⟨rfl, hd.1, .inr hd.2⟩)
    | overflow _ _ msg _ hr _ _ =>
      exact ⟨_, t₁, by simp; omega, fun e he => .inl (hpolls e he), ht₁, _, msg,
        List.prefix_append _ _, hr⟩

end Filling

/-! ## Settling

The timer fires only in the inner `select`, once a poll has found the record's queue empty; the
way back to the top of the loop is the polls that empty the queue or overflow the bundle, the
timer, and the write. -/

section Settling

/-- At most `n` of `sendLoop`'s own events, each a poll, the timer firing, `maxResponseDelay`
passing or a successful write, take `s` to the top of the loop. -/
def Settles (s : SelectState) (n : Nat) : Prop :=
  ∃ es t, es.length ≤ n ∧ (∀ e ∈ es, e = .poll ∨ e = .fire ∨ e = .expire ∨ e = .write .ok) ∧
    run v s es = some t ∧ t.send.phase = .idle

variable {v} {s : SelectState}

theorem Settles.mono {m n : Nat} (h : Settles v s m) (hmn : m ≤ n) : Settles v s n :=
  let ⟨es, t, hl, hes, hr⟩ := h
  ⟨es, t, hl.trans hmn, hes, hr⟩

theorem Settles.append {es : List SelectEvent} {t : SelectState} {n : Nat}
    (hes : ∀ e ∈ es, e = .poll ∨ e = .fire ∨ e = .expire ∨ e = .write .ok)
    (h : run v s es = some t) (ht : Settles v t n) : Settles v s (es.length + n) :=
  let ⟨es', u, hl, hes', hr, hu⟩ := ht
  ⟨es ++ es', u, by simp only [List.length_append]; omega,
    fun e he => (List.mem_append.mp he).elim (hes e) (hes' e), by rw [run_append h]; exact hr, hu⟩

theorem settles_idle (hp : s.send.phase = .idle) : Settles v s 0 :=
  ⟨[], s, le_rfl, nofun, rfl, hp⟩

/-- With no record held, a successful write ends at the top of the loop. -/
theorem settles_writing {addr : Addr} {buf : List UInt8} (hp : s.send.phase = .writing addr buf)
    (hn : s.send.nextRec = none) : Settles v s 1 := by
  have hn' : ({ s.send with writes := s.send.writes ++ [(addr, buf)] } : SendState).nextRec = none := hn
  have hstep : step v s (.write .ok) = some (leave s
      { s.send with writes := s.send.writes ++ [(addr, buf)], phase := .idle }) := by
    simp [step, SendState.step_write hp (o := .ok) nofun, SendState.next_of_none hn']
  exact ⟨[.write .ok], _, le_rfl, by simp, run_cons_of_step hstep [], rfl⟩

/-- A step on one of `sendLoop`'s own events, from a state that has not returned, takes no
record from the channel and does not make `sendLoop` return; it puts no packet on a queue and
leaves each queue a suffix of what it was. -/
theorem step_own {t : SelectState} {e : SelectEvent} (h : step v s e = some t)
    (he : e = .poll ∨ e = .fire ∨ e = .expire ∨ e = .write .ok)
    (hs : ∀ b, s.send.phase ≠ .returned b) :
    t.send.received = s.send.received ∧ (∀ b, t.send.phase ≠ .returned b) ∧
      t.enqueued = s.enqueued ∧ ∀ c, t.queues c <:+ s.queues c := by
  have hsend : ∀ {e' u}, SendState.step v s.send e' = some u → e'.records = [] →
      e' ≠ .closed → e' ≠ .write .error → u.received = s.send.received ∧ ∀ b, u.phase ≠ .returned b :=
    fun hu hr hc hw => ⟨by rw [SendState.step_received hu, hr, List.append_nil],
      fun _ hb => (SendState.step_returned_cases hu hb).elim hc hw⟩
  rcases step_cases h with ⟨e', u, he', hu, rfl⟩ | ⟨-, rfl⟩ |
    ⟨-, rec, -, -, -, p, rest, -, hq, hu, hqs, hen⟩ | ⟨-, rfl⟩ | ⟨c, p, rfl, -⟩
  · obtain ⟨hr, hret⟩ : u.received = s.send.received ∧ ∀ b, u.phase ≠ .returned b := by
      rcases he with rfl | rfl | rfl | rfl <;> cases he' <;> exact hsend hu rfl nofun nofun
    exact ⟨hr, hret, rfl, fun _ => List.suffix_refl _⟩
  · exact ⟨rfl, hs, rfl, fun _ => List.suffix_refl _⟩
  · obtain ⟨hr, hret⟩ := hsend hu rfl nofun nofun
    refine ⟨hr, hret, hen, fun c => ?_⟩
    rw [hqs]
    by_cases hc : c = rec.clientID
    · subst hc
      rw [Function.update_same, hq]
      exact List.suffix_cons _ _
    · rw [Function.update_noteq hc]
  · exact ⟨rfl, hs, rfl, fun _ => List.suffix_refl _⟩
  · rcases he with h | h | h | h <;> cases h

theorem run_own {t : SelectState} {es : List SelectEvent} (h : run v s es = some t)
    (hes : ∀ e ∈ es, e = .poll ∨ e = .fire ∨ e = .expire ∨ e = .write .ok)
    (hs : ∀ b, s.send.phase ≠ .returned b) :
    t.send.received = s.send.received ∧ (∀ b, t.send.phase ≠ .returned b) ∧
      t.enqueued = s.enqueued ∧ ∀ c, t.queues c <:+ s.queues c := by
  induction es generalizing s with
  | nil => cases h; exact ⟨rfl, hs, rfl, fun _ => List.suffix_refl _⟩
  | cons e es ih =>
    cases hu : step v s e with
    | none => simp [run, hu] at h
    | some u =>
      rw [run_cons_of_step hu] at h
      obtain ⟨hr, hret, hen, hq⟩ := step_own hu (hes e (List.mem_cons_self _ _)) hs
      obtain ⟨hr', hret', hen', hq'⟩ := ih h (fun e he => hes e (List.mem_cons_of_mem _ he)) hret
      exact ⟨hr'.trans hr, hret', hen'.trans hen, fun c => (hq' c).trans (hq c)⟩

/-- With every record received serialized, `sendLoop` is at the top of the loop or about to
write, and one successful write at most takes it back. -/
theorem settles_of_pending_nil (hpend : s.send.pending = [])
    (hret : ∀ b, s.send.phase ≠ .returned b) : Settles v s 1 := by
  have hn : s.send.nextRec = none := by
    cases h : s.send.nextRec with
    | none => rfl
    | some r => simp [SendState.pending, h] at hpend
  cases hp : s.send.phase with
  | idle => exact (settles_idle hp).mono (Nat.zero_le 1)
  | writing addr buf => exact settles_writing hp hn
  | bundling rec q ps limit => simp [SendState.pending, SendState.current, hp] at hpend
  | panicked rec ps => simp [SendState.pending, SendState.current, hp] at hpend
  | returned b => exact absurd hp (hret b)

/-- From a bundle in hand, polls and the timer serialize its response, and one successful write
at most takes `sendLoop` back to the top of the loop. -/
theorem settles_bundling (hi : SendState.Inv v s.send) {rec : Record} {q : Question}
    {ps : List (List UInt8)} {limit : Int} (hp : s.send.phase = .bundling rec q ps limit)
    (hlen : ∀ p ∈ s.queues rec.clientID, p.length < 65536) :
    Settles v s ((s.queues rec.clientID).length + 4) := by
  obtain ⟨es, t, hl, hes, ht, ps', msg, -, hr⟩ := closes hi hp hlen
  have hown : ∀ e ∈ es, e = .poll ∨ e = .fire ∨ e = .expire ∨ e = .write .ok := fun e he =>
    (hes e he).elim .inl fun h => .inr (h.elim .inl fun h => .inr (.inl h.1))
  obtain ⟨hrec, hret, -⟩ := run_own ht hown fun b h => by rw [hp] at h; cases h
  have hti := inv_send_of_run hi ht
  have hpend : t.send.pending = [] := by
    have h1 := hti.served
    rw [hr, hrec, ← hi.served] at h1
    simpa [SendState.pending, SendState.current, hp, (hi.bundling rec q ps limit hp).1] using h1
  exact (Settles.append hown ht (settles_of_pending_nil hpend hret)).mono (by omega)

/-- A response serialized with no record held is written, or has failed to serialize and
`sendLoop` is back at the top of the loop. -/
theorem settles_serialize {u : SendState} {rec : Record} {b : Option (List (List UInt8))}
    {msg : Message} (hs : s.send = SendState.serialize v u rec b msg fun w => { w with phase := .idle })
    (hn : u.nextRec = none) : Settles v s 1 := by
  unfold SendState.serialize at hs
  split at hs
  · exact settles_writing (by rw [hs]) (by rw [hs]; exact hn)
  · exact (settles_idle (by rw [hs])).mono (Nat.zero_le 1)

/-- A record taken with none held is bundled from its queue and written, or serialized and
written at once. -/
theorem settles_start {u : SendState} {r : Record} (hs : s.send = SendState.start v u r)
    (hn : u.nextRec = none) (hi : SendState.Inv v s.send)
    (hlen : ∀ p ∈ s.queues r.clientID, p.length < 65536) :
    Settles v s ((s.queues r.clientID).length + 4) := by
  unfold SendState.start at hs
  split at hs
  · split at hs
    · split at hs <;> exact settles_bundling hi (by rw [hs]) hlen
    · exact (settles_serialize hs hn).mono (by omega)
  · exact (settles_serialize hs hn).mono (by omega)

/-- The longest way back: a write, the record held in `nextRec` bundled from its queue, and its
write. -/
theorem settles_of_inv (hi : SendState.Inv v s.send) (hret : ∀ b, s.send.phase ≠ .returned b)
    (hpanic : ∀ rec ps, s.send.phase ≠ .panicked rec ps) {Q : Nat}
    (hQ : ∀ c, (s.queues c).length ≤ Q) (hlen : ∀ c, ∀ p ∈ s.queues c, p.length < 65536) :
    Settles v s (Q + 5) := by
  cases hp : s.send.phase with
  | idle => exact (settles_idle hp).mono (Nat.zero_le _)
  | bundling rec q ps limit =>
    exact (settles_bundling hi hp (hlen _)).mono (by have := hQ rec.clientID; omega)
  | writing addr buf =>
    cases hn : s.send.nextRec with
    | none => exact (settles_writing hp hn).mono (by omega)
    | some r =>
      have hsend := SendState.step_write (v := v) hp (o := .ok) nofun
      have hstep : step v s (.write .ok) = some (leave s
          (SendState.next v { s.send with writes := s.send.writes ++ [(addr, buf)] })) := by
        simp [step, hsend]
      refine (Settles.append (by simp) (run_cons_of_step hstep [])
        (settles_start (u := { s.send with writes := s.send.writes ++ [(addr, buf)], nextRec := none })
          (by simp [SendState.next, hn]) rfl (SendState.inv_step hsend hi) (hlen r.clientID))).mono ?_
      have := hQ r.clientID
      simp only [List.length_singleton, leave_queues]
      omega
  | panicked rec ps => exact absurd hp (hpanic rec ps)
  | returned b => exact absurd hp (hret b)

end Settling

/-! ## Over every run -/

/-- A NOERROR record's question: the root, TXT, IN. -/
def rootQuestion : Question := ⟨Name.root, rrTypeTXT, 1⟩

/-- Two packets on the queue of the zero ClientID, then a record for that client. -/
def twoQueued : List SelectEvent :=
  [.enqueue ClientID.zero [1], .enqueue ClientID.zero [2, 2, 2, 2, 2], .recv SendState.rootRecord]

/-- Over every run, every nonempty packet put on an `OutgoingQueue` is, once, in a bundle passed
to `WireFormat`, in the bundle in hand, held in `nextP`, or still queued: across the sessions,
the queues and `sendLoop`, none is dropped before `WireFormat` and none is bundled twice. The
bundles of responses whose `WireFormat` or `WriteTo` then fails count among the serialized ones,
so this is not a claim about the datagrams that reach the network. -/
theorem select_packets_conserved (v : Variant) (es : List SelectEvent) (t : SelectState)
    (h : run v init es = some t) :
    ((t.enqueued.map (·.2)).filter (· ≠ [])).Perm
      (((t.send.replies.filterMap (·.bundle)).flatten ++ SendState.bundled t.send.phase ++
        [t.send.nextP] ++ queued t).filter (· ≠ [])) := by
  refine ((fifo_run h fun _ => rfl).enqueued_perm.filter _).trans (List.Perm.of_eq ?_)
  rw [List.filter_append, (inv_of_run h).packets, ← List.filter_append]

/-- The two packets queued, one taken and bundled. -/
theorem select_packets_conserved_one :
    ∃ t, run SendState.smallVariant init (twoQueued ++ [.poll]) = some t ∧
      ((t.enqueued.map (·.2)).filter (· ≠ [])).Perm
        (((t.send.replies.filterMap (·.bundle)).flatten ++ SendState.bundled t.send.phase ++
          [t.send.nextP] ++ queued t).filter (· ≠ [])) := by
  obtain ⟨t, ht⟩ : ∃ t, run SendState.smallVariant init (twoQueued ++ [.poll]) = some t :=
    Option.isSome_iff_exists.mp (by decide)
  exact ⟨t, ht, select_packets_conserved _ _ t ht⟩

/-- From every state reached with a bundle in hand and no `select` waiting, the polls of the
outer `select` take the longest run of the ready packets that fits what is left of `limit`, in
queue order, then either wait in the inner `select` with the timer due if a packet was taken, or
finish the bundle and save the first packet that does not fit in `nextP`. -/
theorem polls_fill_bundle (v : Variant) (es : List SelectEvent) (s : SelectState)
    (h : run v init es = some s) {rec : Record} {q : Question} {ps : List (List UInt8)}
    {limit : Int} {xs : List (List UInt8)} (hp : s.send.phase = .bundling rec q ps limit)
    (hw : s.waiting = false) (hq : s.queues rec.clientID = xs)
    (hlen : ∀ p ∈ xs, p.length < 65536) :
    ∃ t, run v s (List.replicate (fitCount limit xs + 1) .poll) = some t ∧
      Filled s t rec q ps limit xs :=
  polls_fill hlen (inv_of_run h) hp hw hq

/-- Two packets queued for a bundle of 8 bytes: the first fits, the second is saved. -/
theorem polls_fill_bundle_two :
    ∃ s, run SendState.smallVariant init twoQueued = some s ∧
      s.send.phase = .bundling SendState.rootRecord rootQuestion [] 8 ∧ s.waiting = false ∧
      s.queues ClientID.zero = [[1], [2, 2, 2, 2, 2]] ∧
      ∃ t, run SendState.smallVariant s
          (List.replicate (fitCount 8 [[1], [2, 2, 2, 2, 2]] + 1) .poll) = some t ∧
        Filled s t SendState.rootRecord rootQuestion [] 8 [[1], [2, 2, 2, 2, 2]] := by
  obtain ⟨s, hs, hp, hw, hq⟩ := exists_of_any (o := run SendState.smallVariant init twoQueued)
    (p := fun s => s.send.phase = .bundling SendState.rootRecord rootQuestion [] 8 ∧
      s.waiting = false ∧ s.queues ClientID.zero = [[1], [2, 2, 2, 2, 2]]) (by decide)
  exact ⟨s, hs, hp, hw, hq, polls_fill_bundle _ _ s hs hp hw hq (by decide)⟩

/-- From every state reached with a bundle in hand, polls and the timer close the bundle, with
no other input, within the queue's length and three steps: its response is serialized with the
bundle in hand, grown by what the polls took, unless a packet of 65536 bytes or more makes
`sendLoop` panic. `maxResponseDelay` has to pass only when the timer is not due (no packet taken
in this bundle) and no packet is ready. -/
theorem bundle_closes (v : Variant) (es : List SelectEvent) (s : SelectState)
    (h : run v init es = some s) {rec : Record} {q : Question} {ps : List (List UInt8)}
    {limit : Int} (hp : s.send.phase = .bundling rec q ps limit)
    (hlen : ∀ p ∈ s.queues rec.clientID, p.length < 65536) :
    ∃ es' t, es'.length ≤ (s.queues rec.clientID).length + 3 ∧
      (∀ e ∈ es', e = .poll ∨ e = .fire ∨
        (e = .expire ∧ s.due = false ∧ (s.waiting = true ∨ s.queues rec.clientID = []))) ∧
      run v s es' = some t ∧
      ∃ ps' msg, ps <+: ps' ∧ t.send.replies = s.send.replies ++ [⟨rec, some ps', msg⟩] :=
  closes (inv_of_run h) hp hlen

/-- Two packets queued for a record: the polls take the first and end the bundle on the
second. -/
theorem bundle_closes_two :
    ∃ s, run SendState.smallVariant init twoQueued = some s ∧
      s.send.phase = .bundling SendState.rootRecord rootQuestion [] 8 ∧
      (∀ p ∈ s.queues SendState.rootRecord.clientID, p.length < 65536) ∧
      ∃ es' t, es'.length ≤ (s.queues SendState.rootRecord.clientID).length + 3 ∧
        (∀ e ∈ es', e = .poll ∨ e = .fire ∨ (e = .expire ∧ s.due = false ∧
          (s.waiting = true ∨ s.queues SendState.rootRecord.clientID = []))) ∧
        run SendState.smallVariant s es' = some t ∧ ∃ ps' msg, [] <+: ps' ∧
          t.send.replies = s.send.replies ++ [⟨SendState.rootRecord, some ps', msg⟩] := by
  obtain ⟨s, hs, hp, hq⟩ := exists_of_any
    (o := run SendState.smallVariant init twoQueued)
    (p := fun s => s.send.phase = .bundling SendState.rootRecord rootQuestion [] 8 ∧
      s.queues SendState.rootRecord.clientID = [[1], [2, 2, 2, 2, 2]]) (by decide)
  have hlen : ∀ p ∈ s.queues SendState.rootRecord.clientID, p.length < 65536 := by simp [hq]
  exact ⟨s, hs, hp, hlen, bundle_closes _ _ s hs hp hlen⟩

/-- Over every run, from every state short of having returned or panicked, with no packet of
65536 bytes or more queued: `sendLoop`'s own events alone (polls of the outer `select`, the timer
firing in the inner one, `maxResponseDelay` passing, successful writes), at most five more than
the packets queued, take it back to the top of the loop, every record it has received
serialized in order. -/
theorem select_settles (v : Variant) (es : List SelectEvent) (s : SelectState)
    (h : run v init es = some s) (hret : ∀ b, s.send.phase ≠ .returned b)
    (hpanic : ∀ rec ps, s.send.phase ≠ .panicked rec ps)
    (hlen : ∀ p ∈ queued s, p.length < 65536) :
    ∃ es' t, es'.length ≤ (queued s).length + 5 ∧
      (∀ e ∈ es', e = .poll ∨ e = .fire ∨ e = .expire ∨ e = .write .ok) ∧
      run v s es' = some t ∧ t.send.phase = .idle ∧
      t.send.replies.map (·.record) = s.send.received := by
  have hi := inv_of_run h
  have hf := fifo_run h fun _ => rfl
  obtain ⟨es', t, hl, hes, ht, hidle⟩ :=
    settles_of_inv hi hret hpanic hf.queue_length_le fun _ _ hp => hlen _ (hf.mem_queued hp)
  have hti := inv_send_of_run hi ht
  refine ⟨es', t, hl, hes, ht, hidle, ?_⟩
  rw [← (run_own ht hes hret).1]
  simpa [SendState.pending, SendState.current, hidle, hti.unheld (.inl hidle)] using hti.served

/-- A packet queued and bundled, the queue found empty, and a record arriving in the inner
`select`. -/
def recordHeld : List SelectEvent :=
  [.enqueue ClientID.zero [1], .recv SendState.rootRecord, .poll, .poll,
    .newRecord (some SendState.rootRecord)]

/-- The response is about to be written with a record held: the write, the held record's
bundle (a poll finds its queue empty, the timer expires and fires) and its write. -/
theorem select_settles_held :
    ∃ s, run SendState.smallVariant init recordHeld = some s ∧
      s.send.nextRec = some SendState.rootRecord ∧
      (∀ b, s.send.phase ≠ .returned b) ∧ (∀ rec ps, s.send.phase ≠ .panicked rec ps) ∧
      (∀ p ∈ queued s, p.length < 65536) ∧
      ∃ es' t, es'.length ≤ (queued s).length + 5 ∧
        (∀ e ∈ es', e = .poll ∨ e = .fire ∨ e = .expire ∨ e = .write .ok) ∧
        run SendState.smallVariant s es' = some t ∧ t.send.phase = .idle ∧
        t.send.replies.map (·.record) = s.send.received := by
  obtain ⟨s, hs, hn, hw, hq⟩ := exists_of_any (o := run SendState.smallVariant init recordHeld)
    (p := fun s => s.send.nextRec = some SendState.rootRecord ∧
      SendState.pendingWrite s.send.phase ≠ [] ∧ queued s = []) (by decide)
  have hret : ∀ b, s.send.phase ≠ .returned b := fun b h => hw (by rw [h]; rfl)
  have hpanic : ∀ rec ps, s.send.phase ≠ .panicked rec ps := fun _ _ h => hw (by rw [h]; rfl)
  have hlen : ∀ p ∈ queued s, p.length < 65536 := by simp [hq]
  exact ⟨s, hs, hn, hret, hpanic, hlen, select_settles _ _ s hs hret hpanic hlen⟩

end SelectState

end Dnstt
