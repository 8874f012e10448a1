import Dnstt.Dns.Message

/-!
# Wire format

Serialisation of messages, with name compression, and the encoding of TXT RDATA. Both belong
to the `dns` package, which is not among the sources; they follow the specification: the
RFC 1035 wire format, "a TXT answer using name compression", and TXT data "split into
≤255-byte character-strings".

* `Builder.writeName_fresh_length`: a name none of whose suffixes is cached takes its wire
  length; `Builder.writeName_cached_length`: a cached one takes a 2-byte pointer.
* `build_header`: the first 12 bytes are the header, so byte 2 is the high byte of the flags.
* `encodeRDataTXT_length`: TXT data of `n` bytes takes `n + (n - 1) / 255 + 1` bytes.
* `build_single_length`: the size of a message with one question, one answer of the same
  name and root-named additional records.
-/

namespace Dnstt.Dns

/-- Big-endian bytes of a 16-bit value. -/
def u16be (x : UInt16) : List UInt8 := [(x >>> 8).toUInt8, x.toUInt8]

/-- Big-endian bytes of a 32-bit value. -/
def u32be (x : UInt32) : List UInt8 :=
  [(x >>> 24).toUInt8, (x >>> 16).toUInt8, (x >>> 8).toUInt8, x.toUInt8]

@[simp] theorem u16be_length (x : UInt16) : (u16be x).length = 2 := rfl

@[simp] theorem u32be_length (x : UInt32) : (u32be x).length = 4 := rfl

/-! ## Names with compression -/

/-- A message being serialised: the bytes so far, and where each name suffix was written. -/
structure Builder where
  out : List UInt8
  cache : List (List (List UInt8) × Nat)

namespace Builder

def write (b : Builder) (bytes : List UInt8) : Builder := { b with out := b.out ++ bytes }

@[simp] theorem write_out (b : Builder) (bytes : List UInt8) : (b.write bytes).out = b.out ++ bytes :=
  rfl

@[simp] theorem write_cache (b : Builder) (bytes : List UInt8) : (b.write bytes).cache = b.cache :=
  rfl

/-- The offset of an earlier copy of `labels` that a compression pointer can reach. -/
def pointerTo (b : Builder) (labels : List (List UInt8)) : Option Nat :=
  (b.cache.lookup labels).filter (· < 0x4000)

/-- Modelled from the spec (RFC 1035, section 4.1.4): the labels of a name up to the first
suffix already written, then a pointer to that suffix, or the zero byte. -/
def writeName (b : Builder) : List (List UInt8) → Builder
  | [] => b.write [0]
  | l :: ls =>
    match b.pointerTo (l :: ls) with
    | some ptr => b.write (u16be (0xc000 ||| ptr.toUInt16))
    | none => ({ b with cache := (l :: ls, b.out.length) :: b.cache }.write
        (l.length.toUInt8 :: l)).writeName ls

def writeQuestion (b : Builder) (q : Question) : Builder :=
  (b.writeName q.name.labels).write (u16be q.type ++ u16be q.cls)

def writeRR (b : Builder) (rr : RR) : Builder :=
  (b.writeName rr.name.labels).write
    (u16be rr.type ++ u16be rr.cls ++ u32be rr.ttl ++ u16be rr.data.length.toUInt16 ++ rr.data)

theorem writeName_cons_cached {b : Builder} {l : List UInt8} {ls : List (List UInt8)} {ptr : Nat}
    (h : b.pointerTo (l :: ls) = some ptr) :
    b.writeName (l :: ls) = b.write (u16be (0xc000 ||| ptr.toUInt16)) := by
  simp only [writeName, h]

theorem writeName_cons_fresh {b : Builder} {l : List UInt8} {ls : List (List UInt8)}
    (h : b.pointerTo (l :: ls) = none) :
    b.writeName (l :: ls) = ({ b with cache := (l :: ls, b.out.length) :: b.cache }.write
      (l.length.toUInt8 :: l)).writeName ls := by
  simp only [writeName, h]

theorem writeName_prefix (b : Builder) (ls : List (List UInt8)) : b.out <+: (b.writeName ls).out := by
  induction ls generalizing b with
  | nil => exact List.prefix_append _ _
  | cons l ls ih =>
    cases h : b.pointerTo (l :: ls) with
    | some ptr => rw [writeName_cons_cached h]; exact List.prefix_append _ _
    | none =>
      rw [writeName_cons_fresh h]
      exact (List.prefix_append _ _).trans
        (ih ({ b with cache := (l :: ls, b.out.length) :: b.cache }.write (l.length.toUInt8 :: l)))

/-- No suffix of `ls` has been written where a pointer can reach it. -/
def Fresh (b : Builder) (ls : List (List UInt8)) : Prop := ∀ i < ls.length, b.pointerTo (ls.drop i) = none

theorem lookup_cons_ne {k k' : List (List UInt8)} {v : Nat} {c : List (List (List UInt8) × Nat)}
    (h : k ≠ k') : ((k', v) :: c).lookup k = c.lookup k := by
  simp only [List.lookup_cons, beq_eq_false_iff_ne.mpr h]

theorem writeName_fresh_length {b : Builder} {ls : List (List UInt8)} (h : b.Fresh ls) :
    (b.writeName ls).out.length = b.out.length + wireLength ls := by
  induction ls generalizing b with
  | nil => simp [writeName, wireLength]
  | cons l ls ih =>
    have h0 : b.pointerTo (l :: ls) = none := h 0 (by simp)
    have hrest : Fresh ({ b with cache := (l :: ls, b.out.length) :: b.cache }.write
        (l.length.toUInt8 :: l)) ls := by
      intro i hi
      have hne : ls.drop i ≠ l :: ls := fun he => by
        have := congrArg List.length he; simp at this; omega
      simpa [pointerTo, lookup_cons_ne hne] using h (i + 1) (by simp; omega)
    simp only [writeName_cons_fresh h0, ih hrest, write_out, List.length_append, List.length_cons,
      wireLength, List.map_cons, List.sum_cons]
    omega

/-- Writing `ls` only caches suffixes of `ls`, so a longer key keeps its entry. -/
theorem writeName_lookup_long (b : Builder) {ls k : List (List UInt8)} (hk : ls.length < k.length) :
    (b.writeName ls).cache.lookup k = b.cache.lookup k := by
  induction ls generalizing b with
  | nil => rfl
  | cons l ls ih =>
    unfold writeName
    split
    · rfl
    · have hne : k ≠ l :: ls := fun he => by subst he; omega
      rw [ih _ (by simp at hk; omega)]
      exact lookup_cons_ne hne

theorem writeName_fresh_pointerTo {b : Builder} {l : List UInt8} {ls : List (List UInt8)}
    (h : b.Fresh (l :: ls)) (hoff : b.out.length < 0x4000) :
    (b.writeName (l :: ls)).pointerTo (l :: ls) = some b.out.length := by
  rw [writeName_cons_fresh (h 0 (by simp)), pointerTo, writeName_lookup_long _ (by simp)]
  simp [List.lookup, hoff]

theorem writeName_cached_length {b : Builder} {l : List UInt8} {ls : List (List UInt8)} {ptr : Nat}
    (h : b.pointerTo (l :: ls) = some ptr) : (b.writeName (l :: ls)).out.length = b.out.length + 2 := by
  simp [writeName_cons_cached h]

end Builder

/-! ## Messages -/

/-- The 12-byte header: ID, flags and the counts of the Question, Answer, Authority (always
empty here) and Additional sections. -/
def header (m : Message) : List UInt8 :=
  u16be m.id ++ u16be m.flags ++ u16be m.question.length.toUInt16 ++
    u16be m.answer.length.toUInt16 ++ u16be 0 ++ u16be m.additional.length.toUInt16

@[simp] theorem header_length (m : Message) : (header m).length = 12 := rfl

/-- The bytes of a message, section by section, with one compression cache. -/
def build (m : Message) : Builder :=
  m.additional.foldl Builder.writeRR
    (m.answer.foldl Builder.writeRR (m.question.foldl Builder.writeQuestion ⟨header m, []⟩))

inductive WireError
  | integerOverflow
deriving DecidableEq, Repr

/-- Modelled from the spec: `Message.WireFormat` of the `dns` package, failing when a section
count or an RDATA length does not fit in 16 bits. -/
def wireFormat (m : Message) : Except WireError (List UInt8) :=
  if m.question.length ≤ 0xffff ∧ m.answer.length ≤ 0xffff ∧ m.additional.length ≤ 0xffff ∧
      ∀ rr ∈ m.answer ++ m.additional, rr.data.length ≤ 0xffff then
    .ok (build m).out
  else .error .integerOverflow

theorem foldl_writeRR_extends (rrs : List RR) (b : Builder) :
    b.out <+: (rrs.foldl Builder.writeRR b).out := by
  induction rrs generalizing b with
  | nil => exact List.prefix_refl _
  | cons rr rrs ih =>
    exact ((b.writeName_prefix _).trans (List.prefix_append _ _)).trans (ih (b.writeRR rr))

theorem foldl_writeQuestion_extends (qs : List Question) (b : Builder) :
    b.out <+: (qs.foldl Builder.writeQuestion b).out := by
  induction qs generalizing b with
  | nil => exact List.prefix_refl _
  | cons q qs ih =>
    exact ((b.writeName_prefix _).trans (List.prefix_append _ _)).trans (ih (b.writeQuestion q))

/-- Everything after the header is appended to it. -/
theorem build_header (m : Message) : header m <+: (build m).out :=
  ((foldl_writeQuestion_extends m.question ⟨header m, []⟩).trans (foldl_writeRR_extends _ _)).trans
    (foldl_writeRR_extends _ _)

/-- Byte 2 of a message is the high byte of its flags. -/
theorem build_byte_two (m : Message) : (build m).out.getD 2 0 = (m.flags >>> 8).toUInt8 := by
  obtain ⟨t, ht⟩ := build_header m
  rw [← ht]
  rfl

/-! ## The size of a one-question message -/

theorem writeRR_root_length (b : Builder) {rr : RR} (h : rr.name.labels = []) :
    (b.writeRR rr).out.length = b.out.length + 11 + rr.data.length := by
  simp only [Builder.writeRR, h, Builder.writeName, Builder.write_out, List.length_append,
    u16be_length, u32be_length, List.length_singleton]
  omega

theorem foldl_writeRR_root_length (rrs : List RR) (b : Builder) (h : ∀ rr ∈ rrs, rr.name.labels = []) :
    (rrs.foldl Builder.writeRR b).out.length = b.out.length + (rrs.map fun rr => 11 + rr.data.length).sum := by
  induction rrs generalizing b with
  | nil => simp
  | cons rr rrs ih =>
    rw [List.foldl_cons, ih _ (fun a ha => h a (List.mem_cons_of_mem _ ha)),
      writeRR_root_length _ (h rr (List.mem_cons_self _ _))]
    simp only [List.map_cons, List.sum_cons]
    omega

/-- A message with one question, one answer of the same name and root-named additional
records: the question name is written in full and the answer's name is a pointer to it. -/
theorem build_single_length {m : Message} {q : Question} {rr : RR} (hq : m.question = [q])
    (ha : m.answer = [rr]) (hn : rr.name = q.name) (hadd : ∀ a ∈ m.additional, a.name.labels = []) :
    (build m).out.length = 12 + (wireLength q.name.labels + 4) +
      ((if q.name.labels = [] then 1 else 2) + 10 + rr.data.length) +
      (m.additional.map fun a => 11 + a.data.length).sum := by
  let b1 : Builder := (⟨header m, []⟩ : Builder).writeQuestion q
  have h1 : b1.out.length = 12 + (wireLength q.name.labels + 4) := by
    have := @Builder.writeName_fresh_length ⟨header m, []⟩ q.name.labels fun _ _ => rfl
    simp only [b1, Builder.writeQuestion, Builder.write_out, List.length_append, u16be_length,
      this, header_length]
    omega
  have h2 : (b1.writeName q.name.labels).out.length =
      b1.out.length + if q.name.labels = [] then 1 else 2 := by
    cases hl : q.name.labels with
    | nil => simp [Builder.writeName]
    | cons l ls =>
      have hp : b1.pointerTo (l :: ls) = some 12 := by
        have := @Builder.writeName_fresh_pointerTo ⟨header m, []⟩ l ls (fun _ _ => rfl) (by simp)
        simpa [b1, Builder.writeQuestion, Builder.pointerTo, hl] using this
      simp [Builder.writeName_cached_length hp]
  simp only [build, hq, ha, List.foldl_cons, List.foldl_nil]
  rw [foldl_writeRR_root_length _ _ hadd]
  simp only [Builder.writeRR, hn, Builder.write_out, List.length_append, u16be_length, u32be_length]
  rw [h2, h1]
  omega

/-! ## TXT data -/

/-- The loop of `EncodeRDataTXT` for at most `fuel` character-strings: a length byte and the
next (at most 255) bytes, until no data is left. -/
def encodeChunks : Nat → List UInt8 → List UInt8
  | 0, _ => []
  | fuel + 1, p =>
    (min p.length 255).toUInt8 :: (p.take 255 ++
      if p.length ≤ 255 then [] else encodeChunks fuel (p.drop 255))

/-- Modelled from the spec: `EncodeRDataTXT`, the data as character-strings of at most 255
bytes, each after its length byte; empty data is one empty string. `p.length / 255 + 1`
strings hold any data. -/
def encodeRDataTXT (p : List UInt8) : List UInt8 := encodeChunks (p.length / 255 + 1) p

theorem encodeChunks_length (fuel : Nat) (p : List UInt8) (h : p.length ≤ 255 * (fuel + 1)) :
    (encodeChunks (fuel + 1) p).length = p.length + (p.length - 1) / 255 + 1 := by
  induction fuel generalizing p with
  | zero =>
    have : (p.length - 1) / 255 = 0 := Nat.div_eq_of_lt (by omega)
    simp [encodeChunks, show p.length ≤ 255 by omega]
    omega
  | succ fuel ih =>
    by_cases hp : p.length ≤ 255
    · have : (p.length - 1) / 255 = 0 := Nat.div_eq_of_lt (by omega)
      simp [encodeChunks, hp]
      omega
    · have hrest := ih (p.drop 255) (by simp only [List.length_drop]; omega)
      rw [encodeChunks, if_neg hp]
      simp only [List.length_cons, List.length_append, List.length_take, hrest, List.length_drop]
      have : (p.length - 1) / 255 = (p.length - 255 - 1) / 255 + 1 := by omega
      omega

theorem encodeRDataTXT_length (p : List UInt8) :
    (encodeRDataTXT p).length = p.length + (p.length - 1) / 255 + 1 :=
  encodeChunks_length _ p (by omega)

/-- The reading of TXT data as character-strings, concatenated: `k` bytes of the current string
are left to copy, and at 0 the next byte is the length of the next string. `none` when a string
runs past the end. -/
def decodeChunks : Nat → List UInt8 → Option (List UInt8)
  | 0, [] => some []
  | 0, n :: rest => decodeChunks n.toNat rest
  | _ + 1, [] => none
  | k + 1, b :: rest => (decodeChunks k rest).map (b :: ·)

/-- Modelled from the spec: `DecodeRDataTXT`, the concatenation of the character-strings of TXT
data, of which there is at least one. -/
def decodeRDataTXT (d : List UInt8) : Option (List UInt8) :=
  if d = [] then none else decodeChunks 0 d

theorem decodeChunks_append (c ys : List UInt8) :
    decodeChunks c.length (c ++ ys) = (decodeChunks 0 ys).map (c ++ ·) := by
  induction c with
  | nil => simp
  | cons b c ih => simp [decodeChunks, ih, Option.map_map, Function.comp_def]

/-- The length byte of a character-string is the length of the string. -/
theorem chunkLength_toNat (p : List UInt8) : (min p.length 255).toUInt8.toNat = (p.take 255).length := by
  rw [List.length_take, Nat.min_comm]
  exact UInt8.toNat_ofNat_of_lt (show min 255 p.length < 256 by omega)

theorem decodeChunks_encodeChunks (fuel : Nat) (p : List UInt8) (h : p.length ≤ 255 * (fuel + 1)) :
    decodeChunks 0 (encodeChunks (fuel + 1) p) = some p := by
  induction fuel generalizing p with
  | zero =>
    have hp : p.length ≤ 255 := by omega
    simp only [encodeChunks, if_pos hp, decodeChunks, chunkLength_toNat, decodeChunks_append]
    simp [hp]
  | succ fuel ih =>
    by_cases hp : p.length ≤ 255
    · simp only [encodeChunks, if_pos hp, decodeChunks, chunkLength_toNat, decodeChunks_append]
      simp [hp]
    · rw [encodeChunks, if_neg hp, decodeChunks, chunkLength_toNat, decodeChunks_append,
        ih _ (by simp only [List.length_drop]; omega)]
      simp

/-- TXT data reads back as what `EncodeRDataTXT` encoded. -/
theorem decodeRDataTXT_encodeRDataTXT (p : List UInt8) : decodeRDataTXT (encodeRDataTXT p) = some p := by
  rw [decodeRDataTXT, if_neg (by simp [encodeRDataTXT, encodeChunks]), encodeRDataTXT,
    decodeChunks_encodeChunks _ p (by omega)]

end Dnstt.Dns
