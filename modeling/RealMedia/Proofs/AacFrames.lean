import Mathlib.Data.Nat.ModEq
import RealMedia.Proofs.TrackOutputs

/-!
The frames of AAC: a chunk gives all of them or none, and their times count the samples since the
first frame of the stream, so that rounding never adds up.
-/

namespace RealMedia

namespace Aac

variable {chunk b r : Bytes} {parts : List Bytes} {ns : List Nat} {n : Nat}

/-- The lengths of frames, each in a word. -/
def table (parts : List Bytes) : Bytes := parts.flatMap fun p => bytes16 (.ofNat p.length)

/-- The chunk holds these frames: their number is in the high half of the second byte, their lengths
follow, and then they do. -/
structure Packs (chunk : Bytes) (parts : List Bytes) : Prop where
  layout : ∃ first second, chunk = first :: second :: (table parts ++ parts.flatten) ∧
    second.toNat / 16 = parts.length
  sized : ∀ p ∈ parts, p.length < 65536

/-- The frames that a chunk gives: those it holds, or none if it is not put together in this way. -/
def Gives (chunk : Bytes) (parts : List Bytes) : Prop :=
  Packs chunk parts ∨ parts = [] ∧ ∀ qs, ¬ Packs chunk qs

theorem length_table (parts : List Bytes) : (table parts).length = 2 * parts.length := by
  induction parts with
  | nil => rfl
  | cons p parts ih =>
    change (table parts).length + 2 = _
    rw [ih, List.length_cons, Nat.mul_succ]

theorem Packs.length (h : Packs chunk parts) :
    chunk.length = 2 + 2 * parts.length + (parts.map List.length).sum := by
  obtain ⟨first, second, rfl, -⟩ := h.layout
  simp only [List.length_cons, List.length_append, length_table, List.length_flatten]
  omega

/-! ## Reading what is written -/

theorem lengths_table (hs : ∀ p ∈ parts, p.length < 65536) (r : Bytes) :
    lengths parts.length (table parts ++ r) = parts.map List.length := by
  induction parts with
  | nil => rfl
  | cons p parts ih =>
    have hp : (UInt16.ofNat p.length).toNat = p.length :=
      UInt16.toNat_ofNat_of_lt' (hs p (by simp))
    have htable : table (p :: parts) ++ r =
        .ofNat ((UInt16.ofNat p.length).toNat / 256) :: .ofNat (UInt16.ofNat p.length).toNat ::
          (table parts ++ r) := rfl
    rw [htable, List.length_cons, lengths, word16_bytes16, hp, List.map_cons,
      ih fun q hq => hs q (List.mem_cons_of_mem p hq)]

theorem slices_flatten (parts : List Bytes) :
    slices (parts.map List.length) parts.flatten = parts := by
  induction parts with
  | nil => rfl
  | cons p parts ih =>
    simp only [List.map_cons, slices, List.flatten_cons, List.take_left, List.drop_left, ih]

/-! ## Writing what is read -/

theorem table_lengths (hb : 2 * n ≤ b.length) :
    (lengths n b).length = n ∧ (∀ k ∈ lengths n b, k < 65536) ∧
      (lengths n b).flatMap (fun k => bytes16 (.ofNat k)) = b.take (2 * n) := by
  induction n generalizing b with
  | zero => simp [lengths]
  | succ n ih =>
    rcases b with _ | ⟨x, _ | ⟨y, b⟩⟩
    · simp only [List.length_nil] at hb
      omega
    · simp only [List.length_cons, List.length_nil] at hb
      omega
    · have hrest : 2 * n ≤ b.length := by
        simp only [List.length_cons] at hb
        omega
      obtain ⟨hlength, hsmall, hwords⟩ := ih hrest
      have hcons : lengths (n + 1) (x :: y :: b) = (word16 x y).toNat :: lengths n b := rfl
      have htake : (x :: y :: b).take (2 * (n + 1)) = [x, y] ++ b.take (2 * n) := rfl
      rw [hcons, htake]
      refine ⟨?_, ?_, ?_⟩
      · rw [List.length_cons, hlength]
      · intro k hk
        rcases List.mem_cons.1 hk with rfl | hk
        · exact (word16 x y).toNat_lt
        · exact hsmall k hk
      · rw [List.flatMap_cons, hwords, UInt16.ofNat_toNat, bytes16_word16]

theorem flatten_slices (hb : b.length = ns.sum) :
    (slices ns b).flatten = b ∧ (slices ns b).map List.length = ns := by
  induction ns generalizing b with
  | nil => simpa [slices] using hb
  | cons n ns ih =>
    rw [List.sum_cons] at hb
    have hrest : (b.drop n).length = ns.sum := by
      rw [List.length_drop]
      omega
    have hfirst : (b.take n).length = n := List.length_take_of_le (by omega)
    obtain ⟨hflat, hlengths⟩ := ih hrest
    constructor
    · rw [slices, List.flatten_cons, hflat, List.take_append_drop]
    · rw [slices, List.map_cons, hlengths, hfirst]

/-- What is read of a chunk is what it holds, if the lengths come to the bytes behind them. -/
theorem packs_slices {first second : UInt8} (hn : second.toNat / 16 = n) (hb : 2 * n ≤ b.length)
    (hrest : (b.drop (2 * n)).length = (lengths n b).sum) :
    Packs (first :: second :: b) (slices (lengths n b) (b.drop (2 * n))) := by
  obtain ⟨hcount, hsmall, hwords⟩ := table_lengths hb
  obtain ⟨hflat, hlengths⟩ := flatten_slices hrest
  generalize slices (lengths n b) (b.drop (2 * n)) = parts at hflat hlengths ⊢
  have htable : table parts = b.take (2 * n) := by
    rw [← hwords, ← hlengths, List.flatMap_map]
    rfl
  refine ⟨⟨first, second, ?_, ?_⟩, ?_⟩
  · rw [htable, hflat, List.take_append_drop]
  · rw [hn, ← hcount, ← hlengths, List.length_map]
  · intro p hp
    apply hsmall
    rw [← hlengths]
    exact List.mem_map_of_mem hp

theorem toNat_high (x : UInt8) : (x >>> 4).toNat = x.toNat / 16 := by
  simp [UInt8.toNat_shiftRight, Nat.shiftRight_eq_div_pow]

/-- The frames of a chunk are told apart just where it holds them. -/
theorem frames_eq_ok_iff : frames chunk = .ok parts ↔ Packs chunk parts := by
  have hsum : ∀ ns : List Nat, ns.foldr (· + ·) 0 = ns.sum := fun _ => rfl
  constructor
  · intro h
    rcases chunk with _ | ⟨first, _ | ⟨second, b⟩⟩
    · cases h
    · cases h
    simp only [frames, atLeast_iff, toNat_high, hsum] at h
    split at h
    · rename_i hroom
      split at h
      · rename_i hlength
        cases h
        refine packs_slices rfl hroom ?_
        simp only [List.length_cons] at hlength
        rw [List.length_drop]
        omega
      · cases h
    · cases h
  · intro h
    have hlength := h.length
    obtain ⟨first, second, rfl, hcount⟩ := h.layout
    have htable := length_table parts
    have hroom : 2 * parts.length ≤ (table parts ++ parts.flatten).length := by
      rw [List.length_append]
      omega
    simp only [frames, atLeast_iff, toNat_high, hcount, if_pos hroom, lengths_table h.sized, hsum,
      if_pos hlength]
    rw [← htable, List.drop_left, slices_flatten]

theorem gives_frames (chunk : Bytes) : Gives chunk ((frames chunk).toOption.getD []) := by
  cases h : frames chunk with
  | ok parts => exact .inl (frames_eq_ok_iff.1 h)
  | error e =>
    refine .inr ⟨rfl, ?_⟩
    intro qs hq
    rw [frames_eq_ok_iff.2 hq] at h
    cases h

end Aac

/-! ## Times -/

namespace AacFramer

/-- Nanoseconds of so many frames of 1024 samples, at one sample a second. -/
def ticks (n : Nat) : Nat := n * 1024 * 1000000000

/-- The times of packets count frames from a base. -/
structure Steady (rate : Nat) (base : Int) (ps : List Packet) : Prop where
  unclocked : rate = 0 → ∀ p ∈ ps, p.time = base ∧ p.duration = noTime
  duration : 0 < rate → ∀ p ∈ ps, p.duration = (ticks 1 / rate : Nat)
  time : 0 < rate → ∀ k p, ps[k]? = some p → ticks k < 2 ^ 64 →
    StandsFor p.time (base + (ticks k / rate : Nat))
  gap : 0 < rate → ∀ k p q, ps[k]? = some p → ps[k + 1]? = some q → ticks (k + 1) < 2 ^ 64 →
    ∃ e, (e = 0 ∨ e = 1) ∧ StandsFor q.time (p.time + p.duration + e)

variable {f : AacFramer} {rate n : Nat} {base b : Int} {parts : List Bytes}

theorem ticks_succ (n : Nat) : ticks (n + 1) = ticks n + ticks 1 := by
  simp only [ticks, Nat.add_mul, Nat.one_mul]

theorem span_eq (hn : ticks n < 2 ^ 64) (rate : Nat) : span rate n = ticks n / rate :=
  congrArg (· / rate) (Nat.mod_eq_of_lt hn)

theorem timeOf_eq (base : Int) (hr : 0 < rate) (hn : ticks n < 2 ^ 64) :
    timeOf rate base n = signed64 (base + (ticks n / rate : Nat)) := by
  rw [timeOf, if_neg (by omega), signed64_add_signed64, span_eq hn]

theorem frameDuration_eq (hr : 0 < rate) : frameDuration rate = (ticks 1 / rate : Nat) := by
  rw [frameDuration, if_neg (by omega), span_eq (by decide)]

theorem standsFor_timeOf (hb : 0 ≤ base) (hr : 0 < rate) (hn : ticks n < 2 ^ 64) :
    StandsFor (timeOf rate base n) (base + (ticks n / rate : Nat)) := by
  rw [timeOf_eq base hr hn]
  have hspan : 0 ≤ ((ticks n / rate : Nat) : Int) := Int.natCast_nonneg _
  exact standsFor_signed64 (by omega)

theorem ticks_succ_div (hr : 0 < rate) (n : Nat) : ∃ e, (e = 0 ∨ e = 1) ∧
    ticks (n + 1) / rate = ticks n / rate + ticks 1 / rate + e := by
  have hadd : ticks (n + 1) / rate = ticks n / rate + ticks 1 / rate +
      if rate ≤ ticks n % rate + ticks 1 % rate then 1 else 0 := by
    rw [ticks_succ, Nat.add_div hr]
  split at hadd
  · exact ⟨1, .inr rfl, hadd⟩
  · exact ⟨0, .inl rfl, hadd⟩

/-- A frame more takes its duration or a nanosecond more. -/
theorem standsFor_timeOf_succ (base : Int) (hr : 0 < rate) (hn : ticks (n + 1) < 2 ^ 64) :
    ∃ e, (e = 0 ∨ e = 1) ∧
      StandsFor (timeOf rate base (n + 1)) (timeOf rate base n + frameDuration rate + e) := by
  have hlast : ticks n < 2 ^ 64 := by
    rw [ticks_succ] at hn
    omega
  obtain ⟨e, he, hnext⟩ := ticks_succ_div hr n
  -- What is cut off the time of one frame is cut off that of the next one, too.
  have hsum : timeOf rate base (n + 1) =
      signed64 (timeOf rate base n + frameDuration rate + e) := by
    rw [timeOf_eq base hr hn, timeOf_eq base hr hlast, frameDuration_eq hr, hnext, Int.add_assoc,
      signed64_signed64_add]
    congr 1
    omega
  have hlow : -9223372036854775808 ≤ timeOf rate base n := by
    rw [timeOf_eq base hr hlast]
    exact le_signed64 _
  have hforward : 0 ≤ frameDuration rate := by
    rw [frameDuration_eq hr]
    exact Int.natCast_nonneg _
  rw [hsum]
  exact ⟨e, by omega, standsFor_signed64 (by omega)⟩

/-- The packet of a frame that has others before it. -/
def packetOf (f : AacFramer) (base : Int) (n : Nat) (data : Bytes) : Packet where
  stream := f.header.id
  data := data
  time := timeOf f.config.sampleRate base n
  duration := frameDuration f.config.sampleRate
  backward := noTime
  forward := noTime

/-- The packets of frames one behind the other, with `n` before them. -/
def packetsFrom (f : AacFramer) (base : Int) (n : Nat) (parts : List Bytes) : List Packet :=
  parts.mapIdx fun i data => f.packetOf base (n + i) data

theorem packetsFrom_cons (data : Bytes) : f.packetsFrom base n (data :: parts) =
    f.packetOf base n data :: f.packetsFrom base (n + 1) parts := by
  simp only [packetsFrom, List.mapIdx_cons, Nat.add_zero, Nat.add_comm, Nat.add_left_comm]

theorem packetsFrom_append (parts more : List Bytes) :
    f.packetsFrom base n (parts ++ more) =
      f.packetsFrom base n parts ++ f.packetsFrom base (n + parts.length) more := by
  induction parts generalizing n with
  | nil => rfl
  | cons data parts ih =>
    have hcount : n + 1 + parts.length = n + (parts.length + 1) := by omega
    simp only [List.cons_append, packetsFrom_cons, ih, List.length_cons, hcount]

theorem data_packetsFrom (f : AacFramer) (base : Int) (n : Nat) (parts : List Bytes) :
    (f.packetsFrom base n parts).map (·.data) = parts := by
  induction parts generalizing n with
  | nil => rfl
  | cons data parts ih => simp only [packetsFrom_cons, List.map_cons, ih, packetOf]

theorem clock_packetsFrom {k : Nat} {p : Packet} (hp : (f.packetsFrom b 0 parts)[k]? = some p) :
    p.time = timeOf f.config.sampleRate b k ∧ p.duration = frameDuration f.config.sampleRate := by
  simp only [packetsFrom, List.getElem?_mapIdx, Option.map_eq_some_iff] at hp
  obtain ⟨data, -, rfl⟩ := hp
  rw [Nat.zero_add]
  exact ⟨rfl, rfl⟩

theorem steady_packetsFrom (f : AacFramer) (hb : 0 ≤ b) (parts : List Bytes) :
    Steady f.config.sampleRate b (f.packetsFrom b 0 parts) := by
  constructor
  · intro hr p hp
    obtain ⟨k, hk⟩ := List.mem_iff_getElem?.1 hp
    obtain ⟨htime, hlong⟩ := clock_packetsFrom hk
    rw [htime, hlong, timeOf, frameDuration, if_pos hr, if_pos hr]
    exact ⟨rfl, rfl⟩
  · intro hr p hp
    obtain ⟨k, hk⟩ := List.mem_iff_getElem?.1 hp
    rw [(clock_packetsFrom hk).2, frameDuration_eq hr]
  · intro hr k p hp hk
    rw [(clock_packetsFrom hp).1]
    exact standsFor_timeOf hb hr hk
  · intro hr k p q hp hq hk
    obtain ⟨hptime, hlong⟩ := clock_packetsFrom hp
    rw [hptime, hlong, (clock_packetsFrom hq).1]
    exact standsFor_timeOf_succ b hr hk

/-- Frames that come behind others go by the time that is there. -/
theorem deliverAac_based (hb : f.base = some b) (time : Int) (parts : List Bytes) :
    (deliverAac f time parts).1 = { f with frames := f.frames + parts.length } ∧
      packets (deliverAac f time parts).2 = f.packetsFrom b f.frames parts := by
  induction parts generalizing f time with
  | nil => exact ⟨rfl, rfl⟩
  | cons data parts ih =>
    rcases f with ⟨header, config, base, frames⟩
    cases hb
    obtain ⟨hstate, hout⟩ := ih (f := ⟨header, config, some b, frames + 1⟩) rfl noTime
    have hcount : frames + 1 + parts.length = frames + (parts.length + 1) := by omega
    constructor
    · apply hstate.trans
      simp only [List.length_cons, hcount]
    · change packets ([_] ++ (deliverAac ⟨header, config, some b, frames + 1⟩ noTime parts).2) = _
      simp only [packets_append, hout, packetsFrom_cons]
      rfl

/-- The frames of a chunk go by the time of the first frame of the stream, or that of the chunk if
they are the first. -/
theorem deliverAac_eq (f : AacFramer) (time : Int) (parts : List Bytes) :
    let b := f.base.getD (max time 0)
    (deliverAac f time parts).1 =
        (if parts = [] then f else { f with base := some b, frames := f.frames + parts.length }) ∧
      packets (deliverAac f time parts).2 = f.packetsFrom b f.frames parts := by
  intro b
  cases parts with
  | nil => exact ⟨rfl, rfl⟩
  | cons data more =>
    have hprocess : f.process { data, time } =
        { f with base := some b }.process { data, time } := by
      simp only [process, b, Option.getD_some]
    have hsame : deliverAac f time (data :: more) =
        deliverAac { f with base := some b } time (data :: more) := by
      simp only [deliverAac, hprocess]
    rw [hsame]
    exact deliverAac_based rfl time (data :: more)

end AacFramer

/-- A packet of the container on its way to a track. -/
structure Delivery where
  data : Bytes
  time : Int
  key : Bool := true

namespace Track

variable {o : Options} {t : Track} {f : AacFramer} {d : Delivery} {ds : List Delivery} {b : Int}

def receive (o : Options) (t : Track) (d : Delivery) : Track × Outputs × Option SyncFault :=
  t.push o d.data d.time d.key

/-- What a track makes of packets that come one behind the other. -/
def receiveAll (o : Options) (t : Track) : List Delivery → Track × Outputs
  | [] => (t, [])
  | d :: ds =>
    let (t, out, _) := t.receive o d
    let (t, more) := t.receiveAll o ds
    (t, out ++ more)

theorem receiveAll_cons (o : Options) (t : Track) (d : Delivery) (ds : List Delivery) :
    t.receiveAll o (d :: ds) =
      (((t.receive o d).1.receiveAll o ds).1,
        (t.receive o d).2.1 ++ ((t.receive o d).1.receiveAll o ds).2) := rfl

/-- A packet gives the frames of a chunk, whole and in order. Without frames nothing happens. -/
structure Hands (o : Options) (t : Track) (d : Delivery) (parts : List Bytes) : Prop where
  gives : Aac.Gives d.data parts
  data : (packets (t.receive o d).2.1).map (·.data) = parts
  idle : parts = [] → (t.receive o d).1 = t ∧ calls (t.receive o d).2.1 = []
  sound : (t.receive o d).2.2 = none

/-- An AAC track hands the frames of a chunk to its framer one by one. -/
theorem receive_aac (o : Options) (f : AacFramer) (d : Delivery) :
    ∃ parts out, Aac.Gives d.data parts ∧ calls out = calls (deliverAac f d.time parts).2 ∧
      receive o ⟨.aac f, false⟩ d = (⟨.aac (deliverAac f d.time parts).1, false⟩, out, none) := by
  have hgives := Aac.gives_frames d.data
  cases hf : Aac.frames d.data with
  | ok parts =>
    rw [hf] at hgives
    refine ⟨parts, _, hgives, rfl, ?_⟩
    simp only [receive, push, hf]
  | error e =>
    rw [hf] at hgives
    refine ⟨[], [.note (aacNote f.header.id e)], hgives, rfl, ?_⟩
    simp only [receive, push, hf]
    rfl

theorem hands_aac (o : Options) (f : AacFramer) (d : Delivery) :
    ∃ parts, Hands o ⟨.aac f, false⟩ d parts ∧
      (receive o ⟨.aac f, false⟩ d).1 = ⟨.aac (deliverAac f d.time parts).1, false⟩ ∧
      packets (receive o ⟨.aac f, false⟩ d).2.1 = packets (deliverAac f d.time parts).2 := by
  obtain ⟨parts, out, hgives, hcalls, hr⟩ := receive_aac o f d
  have hout : packets out = packets (deliverAac f d.time parts).2 :=
    congrArg (·.filterMap SinkCall.packet?) hcalls
  have hdata : (packets out).map (·.data) = parts := by
    rw [hout, (f.deliverAac_eq d.time parts).2, AacFramer.data_packetsFrom]
  rw [hr]
  refine ⟨parts, ⟨hgives, ?_, ?_, ?_⟩, rfl, hout⟩ <;> rw [hr]
  · exact hdata
  · rintro rfl
    exact ⟨rfl, hcalls⟩

/-- A track of AAC stays one. -/
theorem receiveAll_aac (o : Options) (f : AacFramer) (ds : List Delivery) :
    ∃ g, (receiveAll o ⟨.aac f, false⟩ ds).1 = ⟨.aac g, false⟩ := by
  induction ds generalizing f with
  | nil => exact ⟨f, rfl⟩
  | cons d ds ih =>
    obtain ⟨parts, -, htrack, -⟩ := hands_aac o f d
    rw [receiveAll_cons, htrack]
    exact ih _

/-- Behind the first frame all go by its time. -/
theorem receiveAll_based (o : Options) (hb : f.base = some b) (ds : List Delivery) :
    ∃ parts, packets (receiveAll o ⟨.aac f, false⟩ ds).2 = f.packetsFrom b f.frames parts := by
  induction ds generalizing f with
  | nil => exact ⟨[], rfl⟩
  | cons d ds ih =>
    obtain ⟨parts, -, htrack, hout⟩ := hands_aac o f d
    obtain ⟨hstate, hpackets⟩ := AacFramer.deliverAac_based hb d.time parts
    obtain ⟨more, hmore⟩ := ih (f := { f with frames := f.frames + parts.length }) hb
    refine ⟨parts ++ more, ?_⟩
    rw [receiveAll_cons, packets_append, hout, hpackets, htrack, hstate, hmore,
      AacFramer.packetsFrom_append]
    rfl

/-- The first packet with frames gives its time to the stream. -/
theorem receiveAll_first (o : Options) (hb : f.base = none) (hf : f.frames = 0)
    (ht : ∀ d ∈ ds, 0 ≤ d.time) :
    packets (receiveAll o ⟨.aac f, false⟩ ds).2 = [] ∨
      ∃ pre d post parts, ds = pre ++ d :: post ∧
        packets (receiveAll o ⟨.aac f, false⟩ pre).2 = [] ∧
        packets ((receiveAll o ⟨.aac f, false⟩ pre).1.receive o d).2.1 ≠ [] ∧
        packets (receiveAll o ⟨.aac f, false⟩ ds).2 = f.packetsFrom d.time 0 parts := by
  induction ds with
  | nil => exact .inl rfl
  | cons d ds ih =>
    obtain ⟨parts, hands, htrack, hout⟩ := hands_aac o f d
    obtain ⟨hstate, hpackets⟩ := f.deliverAac_eq d.time parts
    by_cases hp : parts = []
    · have hsame := (hands.idle hp).1
      have hnone : packets (receive o ⟨.aac f, false⟩ d).2.1 = [] := by
        rw [hout, hpackets, hp]
        rfl
      have hrun : ∀ es, packets (receiveAll o ⟨.aac f, false⟩ (d :: es)).2 =
          packets (receiveAll o ⟨.aac f, false⟩ es).2 := by
        intro es
        rw [receiveAll_cons, packets_append, hnone, hsame, List.nil_append]
      rcases ih fun e he => ht e (List.mem_cons_of_mem d he) with hempty | hfirst
      · exact .inl ((hrun ds).trans hempty)
      · obtain ⟨pre, e, post, more, rfl, hbefore, hyields, hall⟩ := hfirst
        refine .inr ⟨d :: pre, e, post, more, rfl, (hrun pre).trans hbefore, ?_,
          (hrun _).trans hall⟩
        rw [receiveAll_cons, hsame]
        exact hyields
    · have htime : f.base.getD (max d.time 0) = d.time := by
        rw [hb, Option.getD_none, Int.max_eq_left (ht d (by simp))]
      rw [if_neg hp, htime] at hstate
      rw [htime, hf] at hpackets
      obtain ⟨more, hmore⟩ := receiveAll_based o
        (f := { f with base := some d.time, frames := f.frames + parts.length }) rfl ds
      refine .inr ⟨[], d, ds, parts ++ more, rfl, rfl, ?_, ?_⟩
      · intro hnone
        apply hp
        rw [← hands.data]
        exact List.map_eq_nil_iff.2 hnone
      · rw [receiveAll_cons, packets_append, hout, hpackets, htrack, hstate, hmore,
          AacFramer.packetsFrom_append, hf]
        rfl

/-- A new AAC track gives the frames of each chunk whole and in order, or does nothing where a chunk
holds none. All frames count their times from the chunk that has given the first of them. -/
theorem aac_whole_and_steady (o : Options) (h : StreamHeader) (c : Aac.Config)
    (ht : ∀ d ∈ ds, 0 ≤ d.time) :
    let t : Track := ⟨.aac { header := h, config := c }, false⟩
    (∀ pre d post, ds = pre ++ d :: post → ∃ parts, Hands o (t.receiveAll o pre).1 d parts) ∧
      (packets (t.receiveAll o ds).2 = [] ∨
        ∃ pre d post, ds = pre ++ d :: post ∧ packets (t.receiveAll o pre).2 = [] ∧
          packets ((t.receiveAll o pre).1.receive o d).2.1 ≠ [] ∧
          AacFramer.Steady c.sampleRate d.time (packets (t.receiveAll o ds).2)) := by
  intro t
  constructor
  · rintro pre d post -
    obtain ⟨g, hg⟩ := receiveAll_aac o { header := h, config := c } pre
    obtain ⟨parts, hands, -⟩ := hands_aac o g d
    rw [← hg] at hands
    exact ⟨parts, hands⟩
  · rcases receiveAll_first o (f := { header := h, config := c }) rfl rfl ht with hempty | hfirst
    · exact .inl hempty
    · obtain ⟨pre, d, post, parts, hds, hbefore, hyields, hall⟩ := hfirst
      refine .inr ⟨pre, d, post, hds, hbefore, hyields, ?_⟩
      have hbase : 0 ≤ d.time := ht d (by simp [hds])
      rw [hall]
      exact AacFramer.steady_packetsFrom { header := h, config := c } hbase parts

/-- A byte alone, a chunk that counts no frames, two frames, a chunk that ends too early, and one
more frame. -/
def spoilt : List Delivery :=
  [{ data := [0x00], time := 5 }, { data := [0x00, 0x0f], time := 20 },
    { data := [0x00, 0x20, 0x00, 0x01, 0x00, 0x02, 0xa0, 0xb0, 0xb1], time := 1000 },
    { data := [0x00, 0x10, 0x00, 0x05, 0xc0], time := 2000 },
    { data := [0x00, 0x10, 0x00, 0x01, 0xd0], time := 7000 }]

theorem aac_whole_and_steady_spoilt :
    let c : Aac.Config := ⟨.lc, 44100, 44100, 2, false⟩
    let t : Track := ⟨.aac { header := Ac3Framer.bareHeader 1, config := c }, false⟩
    (packets (t.receiveAll {} spoilt).2).map (fun p => (p.data, p.time, p.duration)) =
        [([0xa0], 1000, 23219954), ([0xb0, 0xb1], 23220954, 23219954),
          ([0xd0], 46440909, 23219954)] ∧
      ∃ pre d post, spoilt = pre ++ d :: post ∧ packets (t.receiveAll {} pre).2 = [] ∧
        packets ((t.receiveAll {} pre).1.receive {} d).2.1 ≠ [] ∧
        AacFramer.Steady 44100 d.time (packets (t.receiveAll {} spoilt).2) := by
  intro c t
  have ht : ∀ d ∈ spoilt, 0 ≤ d.time := by decide
  have hout : (packets (t.receiveAll {} spoilt).2).map (fun p => (p.data, p.time, p.duration)) =
      [([0xa0], 1000, 23219954), ([0xb0, 0xb1], 23220954, 23219954),
        ([0xd0], 46440909, 23219954)] := by
    decide +kernel
  obtain ⟨-, hempty | hfirst⟩ := aac_whole_and_steady {} (Ac3Framer.bareHeader 1) c ht
  · rw [hempty] at hout
    cases hout
  · exact ⟨hout, hfirst⟩

end Track

end RealMedia
