import Dnstt.Carrier.SendLoop

/-!
# The downstream direction

What a client reads back of the responses `sendLoop` serializes. The data of the one Answer RR is
TXT character-strings (`decodeRDataTXT`), and their concatenation is the bundle: each packet
after its length as a big-endian `uint16` (`unbundle`).

`sendLoop` writes `uint16(len(p))` before each packet, which keeps the length only for packets
shorter than 65536 bytes. It panics on a longer packet as soon as it takes one, so a longer
packet never enters a bundle that is serialized, nor `nextP`, which has no length check when it
opens the next bundle. Every packet of a bundle but the first is taken from the queue of the
bundle's record (`Bundles`, over every run).

* `sendLoop_answers_decode`: in every run of `sendLoop` (either variant), the Answer of every
  response serialized with a bundle is one RR whose data a client decodes to exactly the packets
  of the bundle, in order, the leftover packet that opens it included.
* `sendLoop_bundles_own_queue`: every packet of a serialized bundle but its first was taken from
  the queue of the client the response answers; a packet of another client's queue can only open
  a bundle, as the leftover `nextP`.
-/

namespace Dnstt

open Dns

/-! ## Reading a bundle -/

/-- How a client reads a bundle: a big-endian `uint16` length, then that many bytes of packet,
until the bundle ends; `none` when it ends inside a length or a packet. `fuel` bounds the number
of packets. -/
def unbundleWithin : Nat → List UInt8 → Option (List (List UInt8))
  | _, [] => some []
  | 0, _ :: _ => none
  | _ + 1, [_] => none
  | fuel + 1, hi :: lo :: rest =>
    if hi.toNat * 256 + lo.toNat ≤ rest.length then
      (unbundleWithin fuel (rest.drop (hi.toNat * 256 + lo.toNat))).map
        (rest.take (hi.toNat * 256 + lo.toNat) :: ·)
    else none

/-- A bundle holds at most one packet per two bytes. -/
def unbundle (b : List UInt8) : Option (List (List UInt8)) := unbundleWithin b.length b

/-- The two bytes `u16be` writes for a length below 65536 read back as that length. -/
theorem u16be_value {n : Nat} (h : n < 65536) :
    (n.toUInt16 >>> 8).toUInt8.toNat * 256 + n.toUInt16.toUInt8.toNat = n := by
  have hn : n.toUInt16.toNat = n := UInt16.toNat_ofNat_of_lt h
  have hs : (n.toUInt16 >>> 8).toNat = n.toUInt16.toNat / 256 := by
    show (n.toUInt16.toBitVec >>> (UInt16.mod 8 16).toBitVec).toNat = _
    rw [BitVec.ushiftRight_eq', BitVec.toNat_ushiftRight, Nat.shiftRight_eq_div_pow]
    rfl
  show (n.toUInt16 >>> 8).toNat % 256 * 256 + n.toUInt16.toNat % 256 = n
  rw [hs, hn]
  omega

theorem length_le_bundleBytes (ps : List (List UInt8)) : ps.length ≤ (bundleBytes ps).length := by
  induction ps with
  | nil => simp
  | cons p ps ih =>
    simp only [bundleBytes, List.flatMap_cons, List.length_append, u16be_length,
      List.length_cons] at ih ⊢
    omega

theorem unbundleWithin_bundleBytes {ps : List (List UInt8)} (hs : ∀ p ∈ ps, p.length < 65536)
    {fuel : Nat} (hf : ps.length ≤ fuel) : unbundleWithin fuel (bundleBytes ps) = some ps := by
  induction ps generalizing fuel with
  | nil => simp [unbundleWithin]
  | cons p ps ih =>
    obtain ⟨fuel, rfl⟩ : ∃ f, fuel = f + 1 := ⟨fuel - 1, by simp at hf; omega⟩
    have hv := u16be_value (hs p (List.mem_cons_self _ _))
    have hrest : unbundleWithin fuel (bundleBytes ps) = some ps :=
      ih (fun q hq => hs q (List.mem_cons_of_mem _ hq)) (by simp at hf; omega)
    have hb : bundleBytes (p :: ps) = (p.length.toUInt16 >>> 8).toUInt8 ::
        p.length.toUInt16.toUInt8 :: (p ++ bundleBytes ps) := rfl
    rw [hb, unbundleWithin, hv, if_pos (by simp), List.take_left, List.drop_left, hrest]
    rfl

/-- A bundle of packets shorter than 65536 bytes reads back as its packets. -/
theorem unbundle_bundleBytes {ps : List (List UInt8)} (hs : ∀ p ∈ ps, p.length < 65536) :
    unbundle (bundleBytes ps) = some ps :=
  unbundleWithin_bundleBytes hs (length_le_bundleBytes ps)

namespace SendState

/-! ## The bundles of every run -/

/-- A bundle for the client `c`: its packets are shorter than 65536 bytes, and all but the first
were taken from `c`'s queue. -/
def Bundled (taken : List (ClientID × List UInt8)) (c : ClientID) (ps : List (List UInt8)) : Prop :=
  (∀ p ∈ ps, p.length < 65536) ∧ ∀ p ∈ ps.tail, (c, p) ∈ taken

theorem Bundled.mono {taken taken' : List (ClientID × List UInt8)} {c : ClientID}
    {ps : List (List UInt8)} (h : Bundled taken c ps) (ht : ∀ x ∈ taken, x ∈ taken') :
    Bundled taken' c ps :=
  ⟨h.1, fun p hp => ht _ (h.2 p hp)⟩

theorem Bundled.snoc {taken : List (ClientID × List UInt8)} {c : ClientID} {ps : List (List UInt8)}
    (h : Bundled taken c ps) {p : List UInt8} (hp : p.length < 65536) (hc : (c, p) ∈ taken) :
    Bundled taken c (ps ++ [p]) := by
  refine ⟨fun x hx => ?_, fun x hx => ?_⟩
  · rcases List.mem_append.mp hx with hx | hx
    · exact h.1 x hx
    · rw [List.mem_singleton.mp hx]; exact hp
  · cases ps with
    | nil => cases hx
    | cons a ps =>
      rcases List.mem_append.mp hx with hx | hx
      · exact h.2 x hx
      · rw [List.mem_singleton.mp hx]; exact hc

/-- What holds of every bundle `sendLoop` builds: those serialized and the one being filled are
`Bundled` for their record's client, and `nextP`, which opens the next bundle, is shorter than
65536 bytes. -/
structure Bundles (s : SendState) : Prop where
  replies : ∀ r ∈ s.replies, ∀ ps, r.bundle = some ps → Bundled s.taken r.record.clientID ps
  bundling : ∀ rec q ps limit, s.phase = .bundling rec q ps limit → Bundled s.taken rec.clientID ps
  nextP : s.nextP.length < 65536

variable {v : Variant} {s t : SendState}

theorem bundles_init : Bundles init := ⟨nofun, nofun, by decide⟩

/-- A state with the replies, the phase and `nextP` of one whose bundles hold, and having taken
at least its packets, has its bundles hold. -/
theorem bundles_of (hs : Bundles s) (hr : t.replies = s.replies) (hp : t.phase = s.phase)
    (hn : t.nextP = s.nextP) (ht : ∀ x ∈ s.taken, x ∈ t.taken) : Bundles t :=
  ⟨fun r hr' ps hps => (hs.replies r (hr ▸ hr') ps hps).mono ht,
    fun rec q ps limit h => (hs.bundling rec q ps limit (hp.symm.trans h)).mono ht, hn ▸ hs.nextP⟩

theorem bundles_serialize (hs : Bundles s) {rec : Record} {b : Option (List (List UInt8))}
    {msg : Message} {cont : SendState → SendState}
    (hb : ∀ ps, b = some ps → Bundled s.taken rec.clientID ps)
    (hc : ∀ t, Bundles t → Bundles (cont t)) : Bundles (serialize v s rec b msg cont) := by
  have h : Bundles { s with replies := s.replies ++ [⟨rec, b, msg⟩] } := by
    refine ⟨fun r hr => ?_, hs.bundling, hs.nextP⟩
    rcases List.mem_append.mp hr with hr | hr
    · exact hs.replies r hr
    · rw [List.mem_singleton.mp hr]; exact hb
  unfold SendState.serialize
  split
  · exact ⟨h.replies, nofun, h.nextP⟩
  · exact hc _ h

theorem bundles_start (hs : Bundles s) (rec : Record) : Bundles (start v s rec) := by
  have hidle : ∀ t, Bundles t → Bundles { t with phase := .idle } := fun t ht =>
    ⟨ht.replies, nofun, ht.nextP⟩
  unfold SendState.start
  split
  · split
    · split
      · refine ⟨hs.replies, fun _ _ _ _ h => ?_, by simp⟩
        cases h
        exact ⟨fun p hp => List.mem_singleton.mp hp ▸ hs.nextP, nofun⟩
      · exact ⟨hs.replies, fun _ _ _ _ h => by cases h; exact ⟨nofun, nofun⟩, by simp⟩
    · exact bundles_serialize hs nofun hidle
  · exact bundles_serialize hs nofun hidle

theorem bundles_next (hs : Bundles s) : Bundles (next v s) := by
  unfold SendState.next
  split
  · refine bundles_start ?_ _
    exact bundles_of hs rfl rfl rfl fun _ h => h
  · exact ⟨hs.replies, nofun, hs.nextP⟩

theorem bundles_finishBundle (hs : Bundles s) {rec : Record} {q : Question}
    {ps : List (List UInt8)} (hps : Bundled s.taken rec.clientID ps) :
    Bundles (finishBundle v s rec q ps) :=
  bundles_serialize hs (fun _ h => by cases h; exact hps) fun _ ht => bundles_next ht

/-- A step keeps every bundle `Bundled`: a packet of 65536 bytes or more is taken only to panic,
and a packet taken joins the bundle of the record it was taken for, or opens the next bundle as
`nextP`. -/
theorem bundles_step (hs : Bundles s) {e : SendEvent} (h : step v s e = some t) : Bundles t := by
  cases e with
  | recv r =>
    cases hp : s.phase <;> simp only [step, hp, reduceCtorEq, Option.some.injEq] at h
    subst h
    refine bundles_start ?_ r
    exact bundles_of hs rfl hp.symm rfl fun _ h => h
  | closed =>
    cases hp : s.phase <;> simp only [step, hp, reduceCtorEq, Option.some.injEq] at h
    subst h
    exact ⟨hs.replies, nofun, hs.nextP⟩
  | packet p =>
    cases hp : s.phase <;> simp only [step, hp, reduceCtorEq] at h
    next rec q ps limit =>
    have hps := hs.bundling _ _ _ _ hp
    have ht : ∀ x ∈ s.taken, x ∈ s.taken ++ [(rec.clientID, p)] := fun _ => List.mem_append_left _
    split_ifs at h with hlong hover <;> cases h
    · exact ⟨fun r hr qs hb => (hs.replies r hr qs hb).mono ht, nofun, hs.nextP⟩
    · refine bundles_finishBundle ?_ (hps.mono ht)
      exact ⟨fun r hr qs hb => (hs.replies r hr qs hb).mono ht,
        fun _ _ _ _ h => (hs.bundling _ _ _ _ (hp.trans h)).mono ht, Nat.lt_of_not_le hlong⟩
    · refine ⟨fun r hr qs hb => (hs.replies r hr qs hb).mono ht, fun _ _ _ _ h => ?_, hs.nextP⟩
      cases h
      exact (hps.mono ht).snoc (Nat.lt_of_not_le hlong)
        (List.mem_append_right _ (List.mem_singleton_self _))
  | newRecord r =>
    cases hp : s.phase <;> simp only [step, hp, reduceCtorEq, Option.some.injEq] at h
    subst h
    refine bundles_finishBundle ?_ (hs.bundling _ _ _ _ hp)
    exact bundles_of hs rfl hp.symm rfl fun _ h => h
  | timer =>
    cases hp : s.phase <;> simp only [step, hp, reduceCtorEq, Option.some.injEq] at h
    subst h
    exact bundles_finishBundle hs (hs.bundling _ _ _ _ hp)
  | write o =>
    cases hp : s.phase <;> simp only [step, hp, reduceCtorEq] at h
    cases o <;> cases h
    case error.refl => exact ⟨hs.replies, nofun, hs.nextP⟩
    all_goals
      refine bundles_next ?_
      exact bundles_of hs rfl hp.symm rfl fun _ h => h

theorem bundles_run (hs : Bundles s) {es : List SendEvent} (h : run v s es = some t) :
    Bundles t := by
  induction es generalizing s with
  | nil => cases h; exact hs
  | cons e es ih =>
    cases he : step v s e with
    | none => simp [SendState.run, he] at h
    | some u => exact ih (bundles_step hs he) (by rwa [run_cons_of_step he] at h)

/-! ## What a client reads -/

/-- In every run of `sendLoop`, the Answer of every response serialized with a bundle is one RR
whose data a client reads, as TXT character-strings and then as length-prefixed packets, back to
exactly the packets of the bundle, in order, the leftover packet that opens it included. -/
theorem sendLoop_answers_decode (v : Variant) (es : List SendEvent) (s : SendState)
    (h : run v init es = some s) :
    ∀ r ∈ s.replies, ∀ ps, r.bundle = some ps →
      ∃ rr, r.msg.answer = [rr] ∧ (decodeRDataTXT rr.data).bind unbundle = some ps := by
  intro r hr ps hps
  have hv := (inv_run h inv_init).valid r hr
  simp only [Reply.Valid, hps] at hv
  obtain ⟨q, -, -, hmsg⟩ := hv
  refine ⟨_, by rw [hmsg], ?_⟩
  rw [decodeRDataTXT_encodeRDataTXT, Option.some_bind,
    unbundle_bundleBytes ((bundles_run bundles_init h).replies r hr ps hps).1]

/-- The bundle of two packets for `rootRecord`, the third left over, reads back as `[1]`, `[2]`. -/
theorem sendLoop_answers_decode_three :
    ∃ s, run smallVariant init
        [.recv rootRecord, .packet [1], .packet [2], .packet [3, 3, 3], .write .ok] = some s ∧
      ∀ r ∈ s.replies, ∀ ps, r.bundle = some ps →
        ∃ rr, r.msg.answer = [rr] ∧ (decodeRDataTXT rr.data).bind unbundle = some ps := by
  obtain ⟨s, hs⟩ : ∃ s, run smallVariant init
      [.recv rootRecord, .packet [1], .packet [2], .packet [3, 3, 3], .write .ok] = some s :=
    Option.isSome_iff_exists.mp (by decide)
  exact ⟨s, hs, sendLoop_answers_decode _ _ s hs⟩

/-- In every run of `sendLoop`, every packet of a serialized bundle but its first was taken from
the queue of the client whose record the response answers: a packet taken from another client's
queue can only open a bundle, as the leftover `nextP`. -/
theorem sendLoop_bundles_own_queue (v : Variant) (es : List SendEvent) (s : SendState)
    (h : run v init es = some s) :
    ∀ r ∈ s.replies, ∀ ps, r.bundle = some ps → ∀ p ∈ ps.tail, (r.record.clientID, p) ∈ s.taken :=
  fun r hr ps hps => ((bundles_run bundles_init h).replies r hr ps hps).2

/-- The bundle `[1]`, `[2]` for `rootRecord`: `[2]` was taken from its client's queue. -/
theorem sendLoop_bundles_own_queue_three :
    ∃ s, run smallVariant init
        [.recv rootRecord, .packet [1], .packet [2], .packet [3, 3, 3], .write .ok] = some s ∧
      ∀ r ∈ s.replies, ∀ ps, r.bundle = some ps → ∀ p ∈ ps.tail, (r.record.clientID, p) ∈ s.taken := by
  obtain ⟨s, hs⟩ : ∃ s, run smallVariant init
      [.recv rootRecord, .packet [1], .packet [2], .packet [3, 3, 3], .write .ok] = some s :=
    Option.isSome_iff_exists.mp (by decide)
  exact ⟨s, hs, sendLoop_bundles_own_queue _ _ s hs⟩

end SendState

end Dnstt
