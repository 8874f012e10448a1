import Mathlib.Data.List.Basic

/-!
# Upstream packet framing

The payload a query carries after its ClientID is a run of frames: a byte `n ≤ 223` followed
by a packet of `n` bytes, or a byte `224 + k` followed by `k` bytes of padding. `recvLoop`
calls `nextPacket` on a reader over the payload until it fails, and hands every packet it gets
to the reliable transport.

* `firstFrame_eq_some`: reading one frame inverts writing one, so a byte string splits into
  frames in at most one way.
* `packetsOf_decompose`: the loop yields the packets of the frames that `firstFrame` reads one
  after the other, up to the first byte where no complete frame starts.
* `extractWithin_length`: the loop stops within `b.length + 1` calls of `nextPacket`.
-/

namespace Dnstt.Framing

theorem uint8_le_iff {a b : UInt8} : a ≤ b ↔ a.toNat ≤ b.toNat := Iff.rfl

/-! ## The reader -/

inductive ReadError
  | eof
  | unexpectedEOF
deriving DecidableEq, Repr

/-- `nextPacket` on a reader over `r`: the next packet and the bytes after it. A length byte of
224 or more starts padding, which is skipped (`io.CopyN` to `ioutil.Discard`); a clean end of
input is `io.EOF`, input that ends inside a frame is `io.ErrUnexpectedEOF`. -/
def nextPacket : List UInt8 → Except ReadError (List UInt8 × List UInt8)
  | [] => .error .eof
  | pfx :: r =>
    if pfx ≥ 224 then
      if (pfx - 224).toNat ≤ r.length then nextPacket (r.drop (pfx - 224).toNat)
      else .error .unexpectedEOF
    else if pfx.toNat ≤ r.length then .ok (r.take pfx.toNat, r.drop pfx.toNat)
    else .error .unexpectedEOF
termination_by r => r.length

theorem nextPacket_length_lt {r p rest : List UInt8} (h : nextPacket r = .ok (p, rest)) :
    rest.length < r.length := by
  induction r using nextPacket.induct with
  | case1 => simp [nextPacket] at h
  | case2 pfx r hp hk ih =>
    rw [nextPacket, if_pos hp, if_pos hk] at h
    have := ih h
    simp only [List.length_drop, List.length_cons] at this ⊢
    omega
  | case3 pfx r hp hk => rw [nextPacket, if_pos hp, if_neg hk] at h; cases h
  | case4 pfx r hp hk =>
    simp only [nextPacket, hp, hk, if_false, if_true, Except.ok.injEq, Prod.mk.injEq] at h
    rw [← h.2]
    simp only [List.length_drop, List.length_cons]
    omega
  | case5 pfx r hp hk => rw [nextPacket, if_neg hp, if_neg hk] at h; cases h

/-- The loop of `recvLoop` over a payload: `nextPacket` until it fails. -/
def packetsOf (r : List UInt8) : List (List UInt8) :=
  match h : nextPacket r with
  | .ok (p, rest) =>
    have : rest.length < r.length := nextPacket_length_lt h
    p :: packetsOf rest
  | .error _ => []
termination_by r.length

/-- The same loop allowed at most `fuel` calls of `nextPacket`; `none` if it has not stopped. -/
def extractWithin : Nat → List UInt8 → Option (List (List UInt8))
  | 0, _ => none
  | fuel + 1, r =>
    match nextPacket r with
    | .ok (p, rest) => (extractWithin fuel rest).map (p :: ·)
    | .error _ => some []

theorem packetsOf_of_ok {r p rest : List UInt8} (h : nextPacket r = .ok (p, rest)) :
    packetsOf r = p :: packetsOf rest := by
  rw [packetsOf]; split <;> simp_all

theorem packetsOf_of_error {r : List UInt8} {e : ReadError} (h : nextPacket r = .error e) :
    packetsOf r = [] := by
  rw [packetsOf]; split <;> simp_all

@[simp] theorem packetsOf_nil : packetsOf [] = [] :=
  packetsOf_of_error (show nextPacket [] = .error .eof by rw [nextPacket])

theorem packetsOf_congr {r r' : List UInt8} (h : nextPacket r = nextPacket r') :
    packetsOf r = packetsOf r' := by
  cases hn : nextPacket r' with
  | ok pr => rw [packetsOf_of_ok (h.trans hn), packetsOf_of_ok hn]
  | error e => rw [packetsOf_of_error (h.trans hn), packetsOf_of_error hn]

/-- The loop stops within `b.length + 1` calls of `nextPacket`, with the packets of
`packetsOf`. -/
theorem extractWithin_length (b : List UInt8) (fuel : Nat) (h : b.length < fuel) :
    extractWithin fuel b = some (packetsOf b) := by
  induction fuel generalizing b with
  | zero => omega
  | succ fuel ih =>
    rw [extractWithin]
    split
    · next p rest hn =>
      rw [ih rest (by have := nextPacket_length_lt hn; omega), packetsOf_of_ok hn]; rfl
    · next e hn => rw [packetsOf_of_error hn]

/-! ## Frames -/

/-- A frame of an upstream payload (spec, section 4.1). -/
inductive Frame
  | packet (p : List UInt8)
  | padding (q : List UInt8)
deriving DecidableEq

namespace Frame

/-- A packet has at most 223 bytes and padding at most 31, so the first byte tells them apart. -/
def Valid : Frame → Prop
  | packet p => p.length ≤ 223
  | padding q => q.length ≤ 31

/-- A packet after its length byte `n`; padding after the byte `224 + k`. -/
def encode : Frame → List UInt8
  | packet p => p.length.toUInt8 :: p
  | padding q => (224 + q.length).toUInt8 :: q

def packet? : Frame → Option (List UInt8)
  | packet p => some p
  | padding _ => none

theorem encode_ne_nil (f : Frame) : f.encode ≠ [] := by cases f <;> simp [encode]

end Frame

def encodeFrames (fs : List Frame) : List UInt8 := fs.flatMap Frame.encode

def packetsIn (fs : List Frame) : List (List UInt8) := fs.filterMap Frame.packet?

@[simp] theorem encodeFrames_nil : encodeFrames [] = [] := rfl

@[simp] theorem encodeFrames_cons (f : Frame) (fs : List Frame) :
    encodeFrames (f :: fs) = f.encode ++ encodeFrames fs := rfl

/-- The frame `b` starts with, read as `nextPacket` reads it. -/
def firstFrame : List UInt8 → Option (Frame × List UInt8)
  | [] => none
  | x :: r =>
    if x ≥ 224 then
      if (x - 224).toNat ≤ r.length then
        some (.padding (r.take (x - 224).toNat), r.drop (x - 224).toNat)
      else none
    else if x.toNat ≤ r.length then some (.packet (r.take x.toNat), r.drop x.toNat)
    else none

theorem toNat_sub_224 {x : UInt8} (h : x ≥ 224) : (x - 224).toNat = x.toNat - 224 :=
  UInt8.toNat_sub_of_le _ _ h

theorem toUInt8_toNat_eq {x : UInt8} {n : Nat} (h : x.toNat = n) : n.toUInt8 = x :=
  UInt8.toNat.inj (by rw [← h]; exact UInt8.toNat_ofNat_of_lt x.toNat_lt_size)

theorem firstFrame_cons (x : UInt8) (r : List UInt8) :
    firstFrame (x :: r) =
      if x ≥ 224 then
        if (x - 224).toNat ≤ r.length then
          some (.padding (r.take (x - 224).toNat), r.drop (x - 224).toNat)
        else none
      else if x.toNat ≤ r.length then some (.packet (r.take x.toNat), r.drop x.toNat)
      else none := rfl

theorem nextPacket_cons (x : UInt8) (r : List UInt8) :
    nextPacket (x :: r) =
      if x ≥ 224 then
        if (x - 224).toNat ≤ r.length then nextPacket (r.drop (x - 224).toNat)
        else .error .unexpectedEOF
      else if x.toNat ≤ r.length then .ok (r.take x.toNat, r.drop x.toNat)
      else .error .unexpectedEOF := by
  rw [nextPacket]

/-- Reading one frame inverts writing one. -/
theorem firstFrame_eq_some {b rest : List UInt8} {f : Frame} :
    firstFrame b = some (f, rest) ↔ f.Valid ∧ b = f.encode ++ rest := by
  constructor
  · intro h
    match b with
    | x :: r =>
      have hx : x.toNat < 256 := x.toNat_lt_size
      rw [firstFrame_cons] at h
      by_cases hp : x ≥ 224
      · have hp' := uint8_le_iff.1 hp
        simp only [UInt8.reduceToNat] at hp'
        by_cases hk : (x - 224).toNat ≤ r.length
        · simp only [if_pos hp, if_pos hk, Option.some.injEq, Prod.mk.injEq] at h
          obtain ⟨rfl, rfl⟩ := h
          rw [toNat_sub_224 hp] at hk ⊢
          refine ⟨by simp [Frame.Valid]; omega, ?_⟩
          simp only [Frame.encode, List.length_take, List.cons_append, List.take_append_drop]
          rw [Nat.min_eq_left hk, toUInt8_toNat_eq (x := x) (by omega)]
        · simp [if_pos hp, if_neg hk] at h
      · have hp' : x.toNat < 224 := by
          have := mt uint8_le_iff.2 hp; simp only [UInt8.reduceToNat] at this; omega
        by_cases hk : x.toNat ≤ r.length
        · simp only [if_neg hp, if_pos hk, Option.some.injEq, Prod.mk.injEq] at h
          obtain ⟨rfl, rfl⟩ := h
          refine ⟨by simp [Frame.Valid]; omega, ?_⟩
          simp only [Frame.encode, List.length_take, List.cons_append, List.take_append_drop]
          rw [Nat.min_eq_left hk, toUInt8_toNat_eq (x := x) rfl]
        · simp [if_neg hp, if_neg hk] at h
  · rintro ⟨hv, rfl⟩
    cases f with
    | packet p =>
      have hn : p.length.toUInt8.toNat = p.length :=
        UInt8.toNat_ofNat_of_lt (by simp [Frame.Valid] at hv; simp [UInt8.size]; omega)
      have hp : ¬ p.length.toUInt8 ≥ 224 := fun h => by
        have := uint8_le_iff.1 h
        rw [hn] at this
        simp only [Frame.Valid] at hv
        exact absurd this (by show ¬ 224 ≤ p.length; omega)
      simp [firstFrame, Frame.encode, hp, hn]
    | padding q =>
      have hn : (224 + q.length).toUInt8.toNat = 224 + q.length :=
        UInt8.toNat_ofNat_of_lt (by simp [Frame.Valid] at hv; simp [UInt8.size]; omega)
      have hp : (224 + q.length).toUInt8 ≥ 224 :=
        uint8_le_iff.2 (by rw [hn]; exact Nat.le_add_right 224 q.length)
      simp [firstFrame, Frame.encode, hp, toNat_sub_224 hp, hn]

theorem nextPacket_of_firstFrame_none {b : List UInt8} (h : firstFrame b = none) :
    ∃ e, nextPacket b = .error e := by
  match b with
  | [] => exact ⟨.eof, by rw [nextPacket]⟩
  | x :: r =>
    rw [firstFrame_cons] at h
    rw [nextPacket_cons]
    by_cases hp : x ≥ 224
    · by_cases hk : (x - 224).toNat ≤ r.length
      · simp only [if_pos hp, if_pos hk, reduceCtorEq] at h
      · exact ⟨_, by rw [if_pos hp, if_neg hk]⟩
    · by_cases hk : x.toNat ≤ r.length
      · simp only [if_neg hp, if_pos hk, reduceCtorEq] at h
      · exact ⟨_, by rw [if_neg hp, if_neg hk]⟩

theorem nextPacket_of_firstFrame_packet {b p rest : List UInt8}
    (h : firstFrame b = some (.packet p, rest)) : nextPacket b = .ok (p, rest) := by
  match b with
  | x :: r =>
    rw [firstFrame_cons] at h
    rw [nextPacket_cons]
    by_cases hp : x ≥ 224
    · by_cases hk : (x - 224).toNat ≤ r.length
      · simp only [if_pos hp, if_pos hk, Option.some.injEq, Prod.mk.injEq, reduceCtorEq,
          false_and] at h
      · simp only [if_pos hp, if_neg hk, reduceCtorEq] at h
    · by_cases hk : x.toNat ≤ r.length
      · simp only [if_neg hp, if_pos hk, Option.some.injEq, Prod.mk.injEq, Frame.packet.injEq] at h
        rw [if_neg hp, if_pos hk, h.1, h.2]
      · simp only [if_neg hp, if_neg hk, reduceCtorEq] at h

theorem nextPacket_of_firstFrame_padding {b q rest : List UInt8}
    (h : firstFrame b = some (.padding q, rest)) : nextPacket b = nextPacket rest := by
  match b with
  | x :: r =>
    rw [firstFrame_cons] at h
    rw [nextPacket_cons]
    by_cases hp : x ≥ 224
    · by_cases hk : (x - 224).toNat ≤ r.length
      · simp only [if_pos hp, if_pos hk, Option.some.injEq, Prod.mk.injEq] at h
        rw [if_pos hp, if_pos hk, h.2]
      · simp only [if_pos hp, if_neg hk, reduceCtorEq] at h
    · by_cases hk : x.toNat ≤ r.length
      · simp only [if_neg hp, if_pos hk, Option.some.injEq, Prod.mk.injEq, reduceCtorEq,
          false_and] at h
      · simp only [if_neg hp, if_neg hk, reduceCtorEq] at h

/-! ## What the loop yields -/

/-- The loop yields the packets of the frames read one after another from the start of `b`, up
to the first place where no complete frame starts. -/
theorem packetsOf_decompose (b : List UInt8) :
    ∃ fs rest, (∀ f ∈ fs, f.Valid) ∧ b = encodeFrames fs ++ rest ∧ firstFrame rest = none ∧
      packetsOf b = packetsIn fs := by
  cases hf : firstFrame b with
  | none =>
    obtain ⟨e, he⟩ := nextPacket_of_firstFrame_none hf
    exact ⟨[], b, by simp, rfl, hf, packetsOf_of_error he⟩
  | some fr =>
    obtain ⟨f, r⟩ := fr
    obtain ⟨hv, hb⟩ := firstFrame_eq_some.1 hf
    have : r.length < b.length := by
      rw [hb, List.length_append]; have := List.length_pos.2 f.encode_ne_nil; omega
    obtain ⟨fs, rest, hfs, hr, hnone, hp⟩ := packetsOf_decompose r
    refine ⟨f :: fs, rest, ?_, by simp [hb, hr], hnone, ?_⟩
    · intro g hg
      rcases List.mem_cons.1 hg with rfl | hg
      exacts [hv, hfs g hg]
    · cases f with
      | packet p => rw [packetsOf_of_ok (nextPacket_of_firstFrame_packet hf), hp]; rfl
      | padding q =>
        rw [packetsOf_congr (nextPacket_of_firstFrame_padding hf), hp]; rfl
termination_by b.length

/-- Frames are read in one way only: any frames `b` starts with begin the frames that
`packetsOf_decompose` reads. -/
theorem frames_prefix {fs fs' : List Frame} {rest rest' : List UInt8} (hv : ∀ f ∈ fs, f.Valid)
    (hv' : ∀ f ∈ fs', f.Valid) (hnone : firstFrame rest = none)
    (h : encodeFrames fs ++ rest = encodeFrames fs' ++ rest') : fs' <+: fs := by
  induction fs' generalizing fs with
  | nil => exact List.nil_prefix
  | cons f' fs' ih =>
    have h' : firstFrame (encodeFrames fs ++ rest) = some (f', encodeFrames fs' ++ rest') := by
      rw [h]; exact firstFrame_eq_some.2 ⟨hv' f' (List.mem_cons_self _ _), by simp⟩
    cases fs with
    | nil => simp [hnone] at h'
    | cons f fs =>
      have h2 := (@firstFrame_eq_some (encodeFrames (f :: fs) ++ rest) (encodeFrames fs ++ rest) f).2
        ⟨hv f (List.mem_cons_self _ _), by simp⟩
      rw [h'] at h2
      simp only [Option.some.injEq, Prod.mk.injEq] at h2
      obtain ⟨rfl, h3⟩ := h2
      exact List.prefix_cons_inj _ |>.2
        (ih (fun g hg => hv g (List.mem_cons_of_mem _ hg))
          (fun g hg => hv' g (List.mem_cons_of_mem _ hg)) h3.symm)

theorem encodeFrames_append (fs fs' : List Frame) :
    encodeFrames (fs ++ fs') = encodeFrames fs ++ encodeFrames fs' := List.flatMap_append _ _ _

/-- Of two frame lists, one a prefix of the other, the longer encoding is the longer list. -/
theorem eq_of_prefix_of_length_le {fs fs' : List Frame} (h : fs <+: fs')
    (hl : (encodeFrames fs').length ≤ (encodeFrames fs).length) : fs = fs' := by
  obtain ⟨t, rfl⟩ := h
  cases t with
  | nil => simp
  | cons f t =>
    have := List.length_pos.2 f.encode_ne_nil
    rw [encodeFrames_append, encodeFrames_cons, List.length_append, List.length_append] at hl
    omega

/-- Valid frames whose encoding `b` starts with. -/
def FramePrefix (b : List UInt8) (fs : List Frame) : Prop :=
  (∀ f ∈ fs, f.Valid) ∧ encodeFrames fs <+: b

/-- `fs` is a frame prefix of `b` no shorter than any other. -/
def LongestFramePrefix (b : List UInt8) (fs : List Frame) : Prop :=
  FramePrefix b fs ∧ ∀ fs', FramePrefix b fs' → (encodeFrames fs').length ≤ (encodeFrames fs).length

theorem framePrefix_prefix {b : List UInt8} {fs fs0 : List Frame} {rest : List UInt8}
    (hv : ∀ f ∈ fs0, f.Valid) (hb : b = encodeFrames fs0 ++ rest) (hnone : firstFrame rest = none)
    (h : FramePrefix b fs) : fs <+: fs0 := by
  obtain ⟨hfs, t, ht⟩ := h
  exact frames_prefix hv hfs hnone (hb.symm.trans ht.symm)

theorem longestFramePrefix_decompose (b : List UInt8) :
    ∃ fs, LongestFramePrefix b fs ∧ packetsOf b = packetsIn fs := by
  obtain ⟨fs0, rest, hv, hb, hnone, hp⟩ := packetsOf_decompose b
  refine ⟨fs0, ⟨⟨hv, rest, hb.symm⟩, fun fs' h' => ?_⟩, hp⟩
  obtain ⟨t, rfl⟩ := framePrefix_prefix hv hb hnone h'
  simp [encodeFrames_append]

theorem packetsOf_longestFramePrefix {b : List UInt8} {fs : List Frame}
    (h : LongestFramePrefix b fs) : packetsOf b = packetsIn fs := by
  obtain ⟨fs0, rest, hv, hb, hnone, hp⟩ := packetsOf_decompose b
  have hpre := framePrefix_prefix hv hb hnone h.1
  rw [hp, eq_of_prefix_of_length_le hpre (h.2 fs0 ⟨hv, rest, hb.symm⟩)]

theorem packetsOf_encodeFrames {fs : List Frame} (hv : ∀ f ∈ fs, f.Valid) :
    packetsOf (encodeFrames fs) = packetsIn fs :=
  packetsOf_longestFramePrefix ⟨⟨hv, List.prefix_refl _⟩, fun _ h' => h'.2.length_le⟩

/-- The extraction loop of `recvLoop` stops, within `b.length + 1` calls of `nextPacket`, and
yields the packets of the longest run of complete frames at the start of `b`; in particular
it decodes any run of valid frames to its packets. -/
theorem recvLoop_extract (b : List UInt8) :
    extractWithin (b.length + 1) b = some (packetsOf b) ∧
      (∃ fs, LongestFramePrefix b fs) ∧
      (∀ fs, LongestFramePrefix b fs → packetsOf b = packetsIn fs) ∧
      ∀ fs : List Frame, (∀ f ∈ fs, f.Valid) → packetsOf (encodeFrames fs) = packetsIn fs :=
  ⟨extractWithin_length b _ (Nat.lt_succ_self _),
    (longestFramePrefix_decompose b).imp fun _ h => h.1,
    fun _ h => packetsOf_longestFramePrefix h,
    fun _ hv => packetsOf_encodeFrames hv⟩

end Dnstt.Framing
