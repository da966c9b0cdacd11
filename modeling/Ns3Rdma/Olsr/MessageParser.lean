import Ns3Rdma.Olsr.MessageHeader

/-!
# How far the reader of OLSR messages goes

The size of a link message is taken from the wire and subtracted from what is left of the message,
in 16 bits. A link message that is longer than the rest of its message goes unnoticed, and the loop
ends 65536 bytes later, if at all.
-/

namespace Ns3Rdma.OlsrWire.MessageHeader

open Writer Reader

/-- A buffer holds fewer than 2 ^ 32 bytes. -/
structure Received where
  bytes : List UInt8
  length_lt : bytes.length < 2 ^ 32

/-- The 16-bit value behind the first two bytes at an offset: the size of a message or of a link
message that begins there. -/
def sizeAt (bytes : List UInt8) (offset : ℕ) : UInt16 :=
  (bytes.getD (offset + 2) 0).toUInt16 <<< 8 ||| (bytes.getD (offset + 3) 0).toUInt16

/-- Link messages follow one another from an offset to the first one that is congruent to the end
of the message. -/
inductive LinkChain (bytes : List UInt8) (messageEnd : ℕ) : ℕ → ℕ → Prop
  | done {p : ℕ} (hend : p % 65536 = messageEnd) : LinkChain bytes messageEnd p p
  | next {p q : ℕ} (hmore : p % 65536 ≠ messageEnd) (hsize : 4 ≤ (sizeAt bytes p).toNat)
      (hwhole : (sizeAt bytes p).toNat % 4 = 0) (hfits : p + (sizeAt bytes p).toNat ≤ bytes.length)
      (hrest : LinkChain bytes messageEnd (p + (sizeAt bytes p).toNat) q) :
      LinkChain bytes messageEnd p q

/-- The message is a HELLO whose link messages pass the announced end and come back to it modulo
65536. A size from 12 to 15 is refused. -/
def Overruns (bytes : List UInt8) : Prop :=
  bytes.getD 0 0 = 1 ∧ ¬ (12 ≤ (sizeAt bytes 0).toNat ∧ (sizeAt bytes 0).toNat < 16) ∧
    ∃ q, LinkChain bytes (sizeAt bytes 0).toNat 16 q ∧ q ≠ (sizeAt bytes 0).toNat

/-- Whatever is returned, no byte behind the announced size has been read, and the announced size
is returned. -/
def StaysWithin (bytes : List UInt8) : Prop :=
  ∀ r, deserialize bytes = some r →
    bytes.length - r.2.length ≤ (sizeAt bytes 0).toNat ∧ r.1.2.toNat = (sizeAt bytes 0).toNat

/-! ## The fields -/

theorem exists_cons_of_length {α : Type} {l : List α} {n : ℕ} (h : n + 1 ≤ l.length) :
    ∃ v rest, l = v :: rest ∧ n ≤ rest.length := by
  cases l with
  | nil => exact absurd h (Nat.not_succ_le_zero n)
  | cons v rest => exact ⟨v, rest, rfl, Nat.le_of_succ_le_succ h⟩

/-- The type and the size are where `sizeAt` looks for them. -/
theorem readFields_spec {bytes : List UInt8} :
    (12 ≤ bytes.length → ∃ f, readFields bytes = some (f, bytes.drop 12) ∧
      f.messageType = bytes.getD 0 0 ∧ f.messageSize = sizeAt bytes 0) ∧
    (bytes.length < 12 → readFields bytes = none) := by
  constructor
  · intro h
    obtain ⟨b₀, bytes, rfl, h₁⟩ := exists_cons_of_length h
    obtain ⟨b₁, bytes, rfl, h₂⟩ := exists_cons_of_length h₁
    obtain ⟨b₂, bytes, rfl, h₃⟩ := exists_cons_of_length h₂
    obtain ⟨b₃, bytes, rfl, h₄⟩ := exists_cons_of_length h₃
    obtain ⟨b₄, bytes, rfl, h₅⟩ := exists_cons_of_length h₄
    obtain ⟨b₅, bytes, rfl, h₆⟩ := exists_cons_of_length h₅
    obtain ⟨b₆, bytes, rfl, h₇⟩ := exists_cons_of_length h₆
    obtain ⟨b₇, bytes, rfl, h₈⟩ := exists_cons_of_length h₇
    obtain ⟨b₈, bytes, rfl, h₉⟩ := exists_cons_of_length h₈
    obtain ⟨b₉, bytes, rfl, h₁₀⟩ := exists_cons_of_length h₉
    obtain ⟨b₁₀, bytes, rfl, h₁₁⟩ := exists_cons_of_length h₁₀
    obtain ⟨b₁₁, bytes, rfl, h₁₂⟩ := exists_cons_of_length h₁₁
    exact ⟨_, rfl, rfl, rfl⟩
  · intro h
    have htakes : Takes (1 + (1 + (2 + (4 + (1 + (1 + 2)))))) readFields :=
      takes_readU8.bind fun _ => takes_readU8.bind fun _ => takes_readNtohU16.bind fun _ =>
        takes_readNtohU32.bind fun _ => takes_readU8.bind fun _ => takes_readU8.bind fun _ =>
          takes_readNtohU16.map fun _ => _
    exact (htakes bytes).2 h

/-- The size of the body wraps if less than a header is announced. -/
theorem toNat_bodySize (m : UInt16) :
    (m.toUInt32 - 12).toNat = if 12 ≤ m.toNat then m.toNat - 12 else 2 ^ 32 + m.toNat - 12 := by
  have hm := m.toNat_lt
  rw [UInt32.toNat_sub, UInt16.toNat_toUInt32]
  simp only [UInt32.reduceToNat]
  split <;> omega

/-! ## Bodies other than HELLO -/

/-- A reader of bodies that reads as many bytes as it is asked for and returns their number. -/
def Exact {α : Type} (decode : UInt32 → List UInt8 → Option ((α × UInt32) × List UInt8)) : Prop :=
  ∀ size bytes r, decode size bytes = some r →
    size.toNat ≤ bytes.length ∧ r.2 = bytes.drop size.toNat ∧ r.1.2 = size

theorem Mid.exact : Exact Mid.deserialize := by
  intro size bytes r h
  unfold Mid.deserialize at h
  split at h
  · exact absurd h (by simp)
  · next hwhole =>
    obtain ⟨s, hs, rfl⟩ := Option.map_eq_some_iff.mp h
    obtain ⟨hle, hdrop⟩ := (takes_readMany takes_readNtohU32 _).eq_some hs
    have hlen := readMany_length hs
    have hsize : (size / 4).toNat * 4 = size.toNat := by
      have := congrArg UInt32.toNat (not_ne_iff.mp hwhole)
      rw [UInt32.toNat_mod] at this
      rw [UInt32.toNat_div]
      simp only [UInt32.reduceToNat] at this ⊢
      omega
    rw [hsize] at hle hdrop
    refine ⟨hle, hdrop, ?_⟩
    rw [Mid.getSerializedSize, hlen, hsize, UInt32.ofNat_toNat]

theorem Tc.exact : Exact Tc.deserialize := by
  intro size bytes r h
  unfold Tc.deserialize at h
  split at h
  · exact absurd h (by simp)
  · next hfour =>
    obtain ⟨ansn, hansn, h⟩ := Option.bind_eq_some_iff.mp h
    obtain ⟨reserved, hreserved, h⟩ := Option.bind_eq_some_iff.mp h
    split at h
    · exact absurd h (by simp)
    · next hwhole =>
      obtain ⟨s, hs, rfl⟩ := Option.map_eq_some_iff.mp h
      obtain ⟨hle₁, hdrop₁⟩ := takes_readNtohU16.eq_some hansn
      obtain ⟨hle₂, hdrop₂⟩ := takes_readNtohU16.eq_some hreserved
      obtain ⟨hle, hdrop⟩ := (takes_readMany takes_readNtohU32 _).eq_some hs
      have hsize : ((size - 4) / 4).toNat * 4 + 4 = size.toNat := by
        have hmod := congrArg UInt32.toNat (not_ne_iff.mp hwhole)
        rw [UInt32.lt_iff_toNat_lt] at hfour
        have hsub : (size - 4).toNat = size.toNat - 4 :=
          UInt32.toNat_sub_of_le size 4 (UInt32.not_lt.mp fun hlt => hfour hlt)
        rw [UInt32.toNat_mod, hsub] at hmod
        rw [UInt32.toNat_div, hsub]
        simp only [UInt32.reduceToNat] at hmod hfour ⊢
        omega
      rw [hdrop₂, hdrop₁, List.drop_drop, List.length_drop] at hle
      rw [hdrop₁, List.length_drop] at hle₂
      rw [hdrop₂, hdrop₁, List.drop_drop, List.drop_drop] at hdrop
      refine ⟨by omega, ?_, rfl⟩
      rw [hdrop]
      congr 1
      omega

theorem takes_networkAddress : Takes (4 + 4) NetworkAddress.deserialize := by
  have hmask (address : Olsr.Ipv4Address) :
      Takes 4 fun bytes => (readNtohU32 bytes).map fun mask =>
        (NetworkAddress.mk address mask.1, mask.2) :=
    takes_readNtohU32.map (NetworkAddress.mk address)
  exact takes_readNtohU32.bind hmask

theorem Hna.exact : Exact Hna.deserialize := by
  intro size bytes r h
  unfold Hna.deserialize at h
  split at h
  · exact absurd h (by simp)
  · next hwhole =>
    obtain ⟨s, hs, rfl⟩ := Option.map_eq_some_iff.mp h
    obtain ⟨hle, hdrop⟩ := (takes_readMany takes_networkAddress _).eq_some hs
    have hsize : (size / 4 / 2).toNat * (4 + 4) = size.toNat := by
      have := congrArg UInt32.toNat (not_ne_iff.mp hwhole)
      rw [UInt32.toNat_mod] at this
      rw [UInt32.toNat_div, UInt32.toNat_div]
      simp only [UInt32.reduceToNat, UInt32.reduceMul] at this ⊢
      omega
    rw [hsize] at hle hdrop
    exact ⟨hle, hdrop, rfl⟩

/-! ## The loop over link messages -/

section Loop

variable {bytes : List UInt8} {messageEnd p q : ℕ}

theorem LinkChain.le (h : LinkChain bytes messageEnd p q) : p ≤ q := by
  induction h with
  | done => exact Nat.le_refl _
  | next _ _ _ _ _ ih => omega

theorem LinkChain.end_eq (h : LinkChain bytes messageEnd p q) : q % 65536 = messageEnd := by
  induction h with
  | done hend => exact hend
  | next _ _ _ _ _ ih => exact ih

theorem LinkChain.le_length (h : LinkChain bytes messageEnd p q) (hp : p ≤ bytes.length) :
    q ≤ bytes.length := by
  induction h with
  | done => exact hp
  | next _ _ _ hfits _ ih => exact ih hfits

/-- The whole chain is a multiple of four bytes. -/
theorem LinkChain.whole (h : LinkChain bytes messageEnd p q) : (q - p) % 4 = 0 := by
  induction h with
  | done => simp
  | next _ _ hwhole _ hrest ih =>
      have := hrest.le
      omega

/-- The number of addresses of a link message. A size below 4 makes the counter negative, and it is
at least 4 or stops the loop only after more bytes than a buffer holds. -/
theorem passes_linkSize {size : ℕ} (hsize : size < 65536) :
    (((size : ℤ) - 4).tmod 4 = 0 ↔ size % 4 = 0) ∧
      (4 ≤ size → passes (((size : ℤ) - 4).tdiv 4) = (size - 4) / 4) ∧
      (size = 0 → passes (((size : ℤ) - 4).tdiv 4) = 2 ^ 32 - 1) := by
  rcases Nat.lt_or_ge size 4 with hlt | hge
  · have hcases : size = 0 ∨ size = 1 ∨ size = 2 ∨ size = 3 := by omega
    rcases hcases with rfl | rfl | rfl | rfl <;> decide
  · have hnonneg : (0 : ℤ) ≤ (size : ℤ) - 4 := by omega
    refine ⟨?_, fun _ => ?_, fun h => by omega⟩
    · rw [Int.tmod_eq_emod_of_nonneg hnonneg]
      omega
    · unfold passes
      rw [Int.tdiv_eq_ediv_of_nonneg hnonneg]
      omega

theorem sizeAt_drop (bytes : List UInt8) (p : ℕ) : sizeAt (bytes.drop p) 0 = sizeAt bytes p := by
  unfold sizeAt
  simp only [List.getD_eq_getElem?_getD, List.getElem?_drop, Nat.zero_add]

/-- What a link message is read as: its size is announced, a multiple of 4, and not beyond the
end. -/
theorem LinkMessage.deserialize_spec {l : List UInt8} (hl : l.length < 2 ^ 32) :
    (4 ≤ (sizeAt l 0).toNat ∧ (sizeAt l 0).toNat % 4 = 0 ∧ (sizeAt l 0).toNat ≤ l.length →
      ∃ lm, LinkMessage.deserialize l = some ((lm, sizeAt l 0), l.drop (sizeAt l 0).toNat)) ∧
    ∀ r, LinkMessage.deserialize l = some r →
      (4 ≤ (sizeAt l 0).toNat ∧ (sizeAt l 0).toNat % 4 = 0 ∧ (sizeAt l 0).toNat ≤ l.length) ∧
        r.1.2 = sizeAt l 0 ∧ r.2 = l.drop (sizeAt l 0).toNat := by
  rcases Nat.lt_or_ge l.length 4 with hfew | hmany
  · refine ⟨fun h => by omega, fun r hr => ?_⟩
    rcases l with _ | ⟨a, _ | ⟨b, _ | ⟨c, _ | ⟨d, rest⟩⟩⟩⟩
    · exact absurd hr (by simp [LinkMessage.deserialize, readU8])
    · exact absurd hr (by simp [LinkMessage.deserialize, readU8])
    · exact absurd hr (by simp [LinkMessage.deserialize, readU8, readNtohU16])
    · exact absurd hr (by simp [LinkMessage.deserialize, readU8, readNtohU16])
    · exact absurd hfew (by simp)
  · obtain ⟨a, l, rfl, h₁⟩ := exists_cons_of_length hmany
    obtain ⟨b, l, rfl, h₂⟩ := exists_cons_of_length h₁
    obtain ⟨c, l, rfl, h₃⟩ := exists_cons_of_length h₂
    obtain ⟨d, rest, rfl, -⟩ := exists_cons_of_length h₃
    have hsize : sizeAt (a :: b :: c :: d :: rest) 0 = c.toUInt16 <<< 8 ||| d.toUInt16 := rfl
    have heq : LinkMessage.deserialize (a :: b :: c :: d :: rest) =
        if (((c.toUInt16 <<< 8 ||| d.toUInt16).toNat : ℤ) - 4).tmod 4 ≠ 0 then none
        else (readMany readNtohU32
          (passes ((((c.toUInt16 <<< 8 ||| d.toUInt16).toNat : ℤ) - 4).tdiv 4)) rest).map fun r =>
            ((⟨a, r.1⟩, c.toUInt16 <<< 8 ||| d.toUInt16), r.2) := rfl
    rw [heq, hsize]
    generalize c.toUInt16 <<< 8 ||| d.toUInt16 = size
    obtain ⟨hmod, hpasses, hzero⟩ := passes_linkSize size.toNat_lt
    have htakes := takes_readMany takes_readNtohU32 (passes (((size.toNat : ℤ) - 4).tdiv 4))
    have hdrop (hfour : 4 ≤ size.toNat) : (a :: b :: c :: d :: rest).drop size.toNat =
        rest.drop (size.toNat - 4) := by
      obtain ⟨k, hk⟩ := Nat.exists_eq_add_of_le' hfour
      rw [hk, Nat.add_sub_cancel]
      rfl
    simp only [List.length_cons] at hl ⊢
    constructor
    · rintro ⟨hfour, hwhole, hfits⟩
      rw [hpasses hfour, show (size.toNat - 4) / 4 * 4 = size.toNat - 4 by omega] at htakes
      obtain ⟨addresses, hread⟩ := (htakes rest).1 (by omega)
      refine ⟨⟨a, addresses⟩, ?_⟩
      rw [if_neg (not_not.mpr (hmod.mpr hwhole)), hpasses hfour, hread, hdrop hfour]
      rfl
    · intro r hr
      split at hr
      · exact absurd hr (by simp)
      · next hwhole =>
        obtain ⟨s, hs, rfl⟩ := Option.map_eq_some_iff.mp hr
        obtain ⟨hle, hrest⟩ := htakes.eq_some hs
        have hwhole := hmod.mp (not_not.mp hwhole)
        have hfour : 4 ≤ size.toNat := by
          by_contra hlt
          rw [hzero (by omega)] at hle
          omega
        rw [hpasses hfour, show (size.toNat - 4) / 4 * 4 = size.toNat - 4 by omega] at hle hrest
        refine ⟨⟨hfour, hwhole, by omega⟩, rfl, ?_⟩
        rw [hdrop hfour]
        exact hrest

/-- One pass through the loop. -/
theorem readLinkMessages_eq (left : UInt16) (l : List UInt8) :
    readLinkMessages left l =
      if left = 0 then some ([], l)
      else if left < 4 then none
      else (LinkMessage.deserialize l).bind fun lm =>
        (readLinkMessages (left - lm.1.2) lm.2).map fun r => (lm.1.1 :: r.1, r.2) := by
  rw [readLinkMessages]
  split
  · rfl
  · split
    · rfl
    · split
      · next hnone => rw [hnone, Option.bind_none]
      · next lm hlm => rw [hlm, Option.bind_some]

theorem left_sub {left size : UInt16} (h : (p + left.toNat) % 65536 = messageEnd) :
    (p + size.toNat + (left - size).toNat) % 65536 = messageEnd := by
  have hsize := size.toNat_lt
  rw [UInt16.toNat_sub]
  omega

/-- The loop follows a chain to its end. -/
theorem LinkChain.read (hbytes : bytes.length < 2 ^ 32) (h : LinkChain bytes messageEnd p q)
    {left : UInt16} (hleft : (p + left.toNat) % 65536 = messageEnd) :
    ∃ lms, readLinkMessages left (bytes.drop p) = some (lms, bytes.drop q) := by
  induction h generalizing left with
  | @done p hend =>
      have hlt := left.toNat_lt
      have hzero : left = 0 := UInt16.toNat_inj.mp (by
        simp only [UInt16.reduceToNat]
        omega)
      refine ⟨[], ?_⟩
      rw [readLinkMessages_eq, if_pos hzero]
  | @next p q hmore hsize hwhole hfits hrest ih =>
      have hne : left ≠ 0 := by
        rintro rfl
        simp only [UInt16.reduceToNat, Nat.add_zero] at hleft
        exact hmore hleft
      have hchain : LinkChain bytes messageEnd p q := .next hmore hsize hwhole hfits hrest
      have hfour : ¬ left < 4 := by
        have hpos : left.toNat ≠ 0 := fun h0 => hne (UInt16.toNat_inj.mp h0)
        have hle := hchain.le
        have hend := hchain.end_eq
        have hmul := hchain.whole
        rw [UInt16.lt_iff_toNat_lt]
        simp only [UInt16.reduceToNat]
        omega
      have hdrop : (bytes.drop p).length < 2 ^ 32 := by
        rw [List.length_drop]
        omega
      obtain ⟨lm, hlm⟩ := (LinkMessage.deserialize_spec hdrop).1 (by
        rw [sizeAt_drop, List.length_drop]
        omega)
      rw [sizeAt_drop, List.drop_drop] at hlm
      obtain ⟨lms, hlms⟩ := ih (left_sub hleft)
      refine ⟨lm :: lms, ?_⟩
      rw [readLinkMessages_eq, if_neg hne, if_neg hfour, hlm, Option.bind_some, hlms,
        Option.map_some]

/-- A loop that ends has followed a chain. -/
theorem chain_of_readLinkMessages (hbytes : bytes.length < 2 ^ 32) {left : UInt16}
    (hp : p ≤ bytes.length) (hleft : (p + left.toNat) % 65536 = messageEnd)
    {r : List LinkMessage × List UInt8} (h : readLinkMessages left (bytes.drop p) = some r) :
    ∃ q, LinkChain bytes messageEnd p q ∧ q ≤ bytes.length ∧ r.2 = bytes.drop q := by
  induction hn : bytes.length - p using Nat.strong_induction_on generalizing p left r with
  | _ n ih =>
    rw [readLinkMessages_eq] at h
    split at h
    · next hzero =>
      rw [hzero] at hleft
      exact ⟨p, .done hleft, hp, congrArg Prod.snd (Option.some_inj.mp h.symm)⟩
    · next hne =>
      split at h
      · exact absurd h (by simp)
      · have hdrop : (bytes.drop p).length < 2 ^ 32 := by
          rw [List.length_drop]
          omega
        obtain ⟨lm, hlm, h⟩ := Option.bind_eq_some_iff.mp h
        obtain ⟨lms, hlms, rfl⟩ := Option.map_eq_some_iff.mp h
        obtain ⟨⟨hsize, hwhole, hfits⟩, hlmSize, hrest⟩ :=
          (LinkMessage.deserialize_spec hdrop).2 lm hlm
        rw [sizeAt_drop] at hsize hwhole hfits hlmSize hrest
        rw [List.length_drop] at hfits
        rw [hlmSize, hrest, List.drop_drop] at hlms
        obtain ⟨q, hchain, hq, hend⟩ := ih (bytes.length - (p + (sizeAt bytes p).toNat))
          (by omega) (by omega) (left_sub hleft) hlms rfl
        refine ⟨q, .next ?_ hsize hwhole (by omega) hchain, hq, hend⟩
        intro hend
        have hlt := left.toNat_lt
        refine hne (UInt16.toNat_inj.mp ?_)
        simp only [UInt16.reduceToNat]
        omega

end Loop

/-! ## Whole messages -/

section Whole

variable {bytes : List UInt8}

theorem toNat_bodySize_hello (m : UInt16) :
    (16 + ((m.toUInt32 - 12).toUInt16 - 4).toNat) % 65536 = m.toNat := by
  have hm := m.toNat_lt
  have hsize := toNat_bodySize m
  rw [UInt16.toNat_sub, UInt32.toNat_toUInt16]
  simp only [UInt16.reduceToNat]
  split at hsize <;> omega

/-- A HELLO body is refused if it has less than four bytes, and else read as far as the chain of
its link messages goes. -/
theorem Hello.deserialize_spec (hbytes : bytes.length < 2 ^ 32) (m : UInt16) :
    (∀ q, 16 ≤ bytes.length → ¬ (12 ≤ m.toNat ∧ m.toNat < 16) → LinkChain bytes m.toNat 16 q →
      ∃ hello, Hello.deserialize (m.toUInt32 - 12) (bytes.drop 12) =
        some ((hello, m.toUInt32 - 12), bytes.drop q)) ∧
    ∀ r, Hello.deserialize (m.toUInt32 - 12) (bytes.drop 12) = some r →
      ¬ (12 ≤ m.toNat ∧ m.toNat < 16) ∧ r.1.2 = m.toUInt32 - 12 ∧
        ∃ q, LinkChain bytes m.toNat 16 q ∧ q ≤ bytes.length ∧ r.2 = bytes.drop q := by
  have hfour : m.toUInt32 - 12 < 4 ↔ 12 ≤ m.toNat ∧ m.toNat < 16 := by
    have hsize := toNat_bodySize m
    have hm := m.toNat_lt
    rw [UInt32.lt_iff_toNat_lt]
    simp only [UInt32.reduceToNat]
    split at hsize <;> omega
  unfold Hello.deserialize
  constructor
  · intro q hlength hnot hchain
    obtain ⟨reserved, hreserved⟩ := (takes_readNtohU16 (bytes.drop 12)).1 (by
      rw [List.length_drop]; omega)
    obtain ⟨hTime, hhTime⟩ := (takes_readU8 (bytes.drop 14)).1 (by rw [List.length_drop]; omega)
    obtain ⟨willingness, hwillingness⟩ := (takes_readU8 (bytes.drop 15)).1 (by
      rw [List.length_drop]; omega)
    obtain ⟨lms, hlms⟩ := hchain.read hbytes (toNat_bodySize_hello m)
    rw [List.drop_drop] at hreserved hhTime hwillingness
    refine ⟨⟨hTime, willingness, lms⟩, ?_⟩
    rw [if_neg (fun h => hnot (hfour.mp h)), hreserved, Option.bind_some, hhTime,
      Option.bind_some, hwillingness, Option.bind_some, hlms, Option.map_some]
  · intro r hr
    split at hr
    · exact absurd hr (by simp)
    · next hnot =>
      obtain ⟨reserved, hreserved, hr⟩ := Option.bind_eq_some_iff.mp hr
      obtain ⟨hTime, hhTime, hr⟩ := Option.bind_eq_some_iff.mp hr
      obtain ⟨willingness, hwillingness, hr⟩ := Option.bind_eq_some_iff.mp hr
      obtain ⟨lms, hlms, rfl⟩ := Option.map_eq_some_iff.mp hr
      obtain ⟨-, hdrop₁⟩ := takes_readNtohU16.eq_some hreserved
      obtain ⟨-, hdrop₂⟩ := takes_readU8.eq_some hhTime
      obtain ⟨hle, hdrop₃⟩ := takes_readU8.eq_some hwillingness
      rw [hdrop₂, hdrop₁, List.drop_drop, List.drop_drop, List.length_drop] at hle
      rw [hdrop₃, hdrop₂, hdrop₁, List.drop_drop, List.drop_drop, List.drop_drop] at hlms
      exact ⟨fun h => hnot (hfour.mpr h), rfl,
        chain_of_readLinkMessages hbytes (by omega) (toNat_bodySize_hello m) hlms⟩

/-- A body of another kind ends where the announced size says. -/
theorem Exact.within {α : Type} {decode : UInt32 → List UInt8 → Option ((α × UInt32) × List UInt8)}
    (hexact : Exact decode) (hbytes : bytes.length < 2 ^ 32) {m : UInt16}
    {r : (α × UInt32) × List UInt8} (h : decode (m.toUInt32 - 12) (bytes.drop 12) = some r)
    (hlength : 12 ≤ bytes.length) :
    bytes.length - r.2.length ≤ m.toNat ∧ r.1.2 = m.toUInt32 - 12 := by
  obtain ⟨hle, hdrop, hsize⟩ := hexact _ _ _ h
  have hbody := toNat_bodySize m
  rw [List.length_drop] at hle
  refine ⟨?_, hsize⟩
  rw [hdrop, List.length_drop, List.length_drop]
  split at hbody <;> omega

theorem toNat_returned (m : UInt16) : (12 + (m.toUInt32 - 12)).toNat = m.toNat := by
  rw [add_sub_cancel, UInt16.toNat_toUInt32]

/-- A message that overruns is read beyond its end. -/
theorem Overruns.reads_beyond (hbytes : bytes.length < 2 ^ 32) (h : Overruns bytes) :
    ∃ r, deserialize bytes = some r ∧ (sizeAt bytes 0).toNat < bytes.length - r.2.length := by
  obtain ⟨htype, hnot, q, hchain, hq⟩ := h
  have hend := hchain.end_eq
  obtain ⟨hlength, hqle⟩ : 16 ≤ bytes.length ∧ q ≤ bytes.length := by
    cases hchain with
    | done => exact absurd hend (fun h => hq (by omega))
    | next _ _ _ hfirst hrest => exact ⟨by omega, hrest.le_length hfirst⟩
  obtain ⟨f, hf, hftype, hfsize⟩ := readFields_spec.1 (by omega : 12 ≤ bytes.length)
  obtain ⟨hello, hhello⟩ := (Hello.deserialize_spec hbytes (sizeAt bytes 0)).1 q hlength hnot hchain
  have hle := hchain.le
  have heq : deserialize bytes = some ((⟨f.vTime, f.originatorAddress, f.timeToLive, f.hopCount,
      f.messageSequenceNumber, .HELLO_MESSAGE hello⟩, 12 + ((sizeAt bytes 0).toUInt32 - 12)),
      bytes.drop q) := by
    unfold deserialize
    rw [hf, Option.bind_some]
    dsimp only
    rw [hftype, hfsize, htype, Message.deserialize, if_neg (by decide), if_pos rfl, hhello]
    rfl
  refine ⟨_, heq, ?_⟩
  rw [List.length_drop]
  omega

theorem staysWithin_iff (hbytes : bytes.length < 2 ^ 32) :
    StaysWithin bytes ↔ ¬ Overruns bytes := by
  constructor
  · intro h hover
    obtain ⟨r, hr, hlt⟩ := hover.reads_beyond hbytes
    exact absurd (h r hr).1 (Nat.not_le.mpr hlt)
  · intro hover r hr
    have hlength : 12 ≤ bytes.length := by
      by_contra hfew
      unfold deserialize at hr
      rw [readFields_spec.2 (Nat.lt_of_not_le hfew)] at hr
      exact absurd hr (by simp)
    obtain ⟨f, hf, hftype, hfsize⟩ := readFields_spec.1 hlength
    unfold deserialize at hr
    rw [hf, Option.bind_some] at hr
    obtain ⟨body, hbody, rfl⟩ := Option.map_eq_some_iff.mp hr
    dsimp only at hbody ⊢
    rw [hftype, hfsize] at hbody
    have hreturned := toNat_returned (sizeAt bytes 0)
    unfold Message.deserialize at hbody
    split at hbody
    · obtain ⟨mid, hmid, rfl⟩ := Option.map_eq_some_iff.mp hbody
      obtain ⟨hread, hsize⟩ := Mid.exact.within hbytes hmid hlength
      exact ⟨hread, hsize ▸ hreturned⟩
    · split at hbody
      · next htype =>
        obtain ⟨hello, hhello, rfl⟩ := Option.map_eq_some_iff.mp hbody
        obtain ⟨hnot, hsize, q, hchain, hq, hrest⟩ :=
          (Hello.deserialize_spec hbytes (sizeAt bytes 0)).2 hello hhello
        have heq : q = (sizeAt bytes 0).toNat := by
          by_contra hne
          exact hover ⟨htype, hnot, q, hchain, hne⟩
        refine ⟨?_, hsize ▸ hreturned⟩
        dsimp only
        rw [hrest, List.length_drop]
        omega
      · split at hbody
        · obtain ⟨tc, htc, rfl⟩ := Option.map_eq_some_iff.mp hbody
          obtain ⟨hread, hsize⟩ := Tc.exact.within hbytes htc hlength
          exact ⟨hread, hsize ▸ hreturned⟩
        · split at hbody
          · obtain ⟨hna, hhna, rfl⟩ := Option.map_eq_some_iff.mp hbody
            obtain ⟨hread, hsize⟩ := Hna.exact.within hbytes hhna hlength
            exact ⟨hread, hsize ▸ hreturned⟩
          · exact absurd hbody (by simp)

end Whole

/-! ## Reading what was written -/

theorem LinkMessage.deserialize_serialize (lm : LinkMessage) (hsize : lm.getSerializedSize < 65536)
    (rest : List UInt8) :
    LinkMessage.deserialize (lm.serialize ++ rest) =
      some ((lm, UInt16.ofNat lm.getSerializedSize), rest) := by
  have hnat : (UInt16.ofNat (4 + lm.neighborInterfaceAddresses.length * 4)).toNat =
      4 + lm.neighborInterfaceAddresses.length * 4 := by
    rw [UInt16.toNat_ofNat']
    exact Nat.mod_eq_of_lt (by unfold getSerializedSize at hsize; omega)
  obtain ⟨hmod, hpasses, -⟩ := passes_linkSize
    (show 4 + lm.neighborInterfaceAddresses.length * 4 < 65536 by
      unfold getSerializedSize at hsize; omega)
  unfold LinkMessage.deserialize LinkMessage.serialize
  simp only [List.cons_append, List.nil_append, List.append_assoc, readU8, Option.bind_some,
    readNtohU16_htonU16]
  rw [hnat, if_neg (not_not.mpr (hmod.mpr (by omega))), hpasses (by omega),
    show (4 + lm.neighborInterfaceAddresses.length * 4 - 4) / 4 =
      lm.neighborInterfaceAddresses.length by omega,
    readMany_flatMap readNtohU32_htonU32, Option.map_some, getSerializedSize, Nat.mul_comm 4]

theorem readLinkMessages_serialize (lms : List LinkMessage)
    (hsize : (lms.map LinkMessage.getSerializedSize).sum < 65536) (rest : List UInt8) :
    readLinkMessages (UInt16.ofNat (lms.map LinkMessage.getSerializedSize).sum)
      (lms.flatMap LinkMessage.serialize ++ rest) = some (lms, rest) := by
  induction lms with
  | nil =>
      rw [readLinkMessages_eq]
      rfl
  | cons lm others ih =>
      rw [List.map_cons, List.sum_cons] at hsize ⊢
      have hlm : 4 ≤ lm.getSerializedSize := Nat.le_add_right 4 _
      have hnat : (UInt16.ofNat (lm.getSerializedSize +
          (others.map LinkMessage.getSerializedSize).sum)).toNat =
          lm.getSerializedSize + (others.map LinkMessage.getSerializedSize).sum := by
        rw [UInt16.toNat_ofNat']
        exact Nat.mod_eq_of_lt hsize
      have hne : UInt16.ofNat (lm.getSerializedSize +
          (others.map LinkMessage.getSerializedSize).sum) ≠ 0 := by
        intro h
        rw [h] at hnat
        simp only [UInt16.reduceToNat] at hnat
        omega
      have hfour : ¬ UInt16.ofNat (lm.getSerializedSize +
          (others.map LinkMessage.getSerializedSize).sum) < 4 := by
        rw [UInt16.lt_iff_toNat_lt, hnat]
        simp only [UInt16.reduceToNat]
        omega
      have hsub : UInt16.ofNat (lm.getSerializedSize +
          (others.map LinkMessage.getSerializedSize).sum) - UInt16.ofNat lm.getSerializedSize =
          UInt16.ofNat (others.map LinkMessage.getSerializedSize).sum := by
        rw [UInt16.ofNat_add, add_sub_cancel_left]
      rw [readLinkMessages_eq, if_neg hne, if_neg hfour, List.flatMap_cons, List.append_assoc,
        lm.deserialize_serialize (by omega), Option.bind_some, hsub, ih (by omega),
        Option.map_some]

theorem NetworkAddress.deserialize_serialize (a : NetworkAddress) (rest : List UInt8) :
    NetworkAddress.deserialize (a.serialize ++ rest) = some (a, rest) := by
  unfold NetworkAddress.deserialize NetworkAddress.serialize
  rw [List.append_assoc, readNtohU32_htonU32, Option.bind_some, readNtohU32_htonU32,
    Option.map_some]

theorem toNat_size {n : ℕ} (h : n < 65536) : (UInt32.ofNat n).toNat = n := by
  rw [UInt32.toNat_ofNat']
  exact Nat.mod_eq_of_lt (by omega)

theorem Mid.deserialize_serialize (mid : Mid) (hsize : mid.getSerializedSize < 65536)
    (rest : List UInt8) :
    Mid.deserialize (UInt32.ofNat mid.getSerializedSize) (mid.serialize ++ rest) =
      some ((mid, UInt32.ofNat mid.getSerializedSize), rest) := by
  have hnat := toNat_size hsize
  have hwhole : ¬ UInt32.ofNat mid.getSerializedSize % 4 ≠ 0 := by
    refine not_not.mpr (UInt32.toNat_inj.mp ?_)
    rw [UInt32.toNat_mod, hnat, getSerializedSize]
    simp only [UInt32.reduceToNat]
    omega
  have hcount : (UInt32.ofNat mid.getSerializedSize / 4).toNat =
      mid.interfaceAddresses.length := by
    rw [UInt32.toNat_div, hnat, getSerializedSize]
    simp only [UInt32.reduceToNat]
    omega
  rw [Mid.deserialize, if_neg hwhole, hcount, Mid.serialize, readMany_flatMap readNtohU32_htonU32,
    Option.map_some]

theorem Hello.deserialize_serialize (hello : Hello) (hsize : hello.getSerializedSize < 65536)
    (rest : List UInt8) :
    Hello.deserialize (UInt32.ofNat hello.getSerializedSize) (hello.serialize ++ rest) =
      some ((hello, UInt32.ofNat hello.getSerializedSize), rest) := by
  have hnat := toNat_size hsize
  have hsum : hello.getSerializedSize =
      4 + (hello.linkMessages.map LinkMessage.getSerializedSize).sum := rfl
  have hfour : ¬ UInt32.ofNat hello.getSerializedSize < 4 := by
    rw [UInt32.lt_iff_toNat_lt, hnat, hsum]
    simp only [UInt32.reduceToNat]
    omega
  have hleft : (UInt32.ofNat hello.getSerializedSize).toUInt16 - 4 =
      UInt16.ofNat (hello.linkMessages.map LinkMessage.getSerializedSize).sum := by
    apply UInt16.toNat_inj.mp
    rw [UInt16.toNat_sub, UInt32.toNat_toUInt16, hnat, UInt16.toNat_ofNat', hsum]
    simp only [UInt16.reduceToNat]
    omega
  rw [Hello.deserialize, if_neg hfour, hleft, Hello.serialize]
  simp only [List.cons_append, List.nil_append, readU8, readNtohU16, Option.bind_some]
  rw [readLinkMessages_serialize _ (by omega), Option.map_some]

theorem Tc.deserialize_serialize (tc : Tc) (hsize : tc.getSerializedSize < 65536)
    (rest : List UInt8) :
    Tc.deserialize (UInt32.ofNat tc.getSerializedSize) (tc.serialize ++ rest) =
      some ((tc, UInt32.ofNat tc.getSerializedSize), rest) := by
  have hnat := toNat_size hsize
  have hsum : tc.getSerializedSize = 4 + tc.neighborAddresses.length * 4 := rfl
  have hfour : ¬ UInt32.ofNat tc.getSerializedSize < 4 := by
    rw [UInt32.lt_iff_toNat_lt, hnat, hsum]
    simp only [UInt32.reduceToNat]
    omega
  have hsub : (UInt32.ofNat tc.getSerializedSize - 4).toNat = tc.neighborAddresses.length * 4 := by
    rw [UInt32.toNat_sub_of_le _ _ (UInt32.not_lt.mp hfour), hnat, hsum]
    exact Nat.add_sub_cancel_left _ _
  have hwhole : ¬ (UInt32.ofNat tc.getSerializedSize - 4) % 4 ≠ 0 := by
    refine not_not.mpr (UInt32.toNat_inj.mp ?_)
    rw [UInt32.toNat_mod, hsub]
    simp only [UInt32.reduceToNat]
    omega
  have hcount : ((UInt32.ofNat tc.getSerializedSize - 4) / 4).toNat =
      tc.neighborAddresses.length := by
    rw [UInt32.toNat_div, hsub]
    simp only [UInt32.reduceToNat]
    omega
  rw [Tc.deserialize, if_neg hfour, Tc.serialize, List.append_assoc, List.append_assoc,
    readNtohU16_htonU16, Option.bind_some, readNtohU16_htonU16, Option.bind_some, if_neg hwhole,
    hcount, readMany_flatMap readNtohU32_htonU32, Option.map_some]

theorem Hna.deserialize_serialize (hna : Hna) (hsize : hna.getSerializedSize < 65536)
    (rest : List UInt8) :
    Hna.deserialize (UInt32.ofNat hna.getSerializedSize) (hna.serialize ++ rest) =
      some ((hna, UInt32.ofNat hna.getSerializedSize), rest) := by
  have hnat := toNat_size hsize
  have hwhole : ¬ UInt32.ofNat hna.getSerializedSize % (4 * 2) ≠ 0 := by
    refine not_not.mpr (UInt32.toNat_inj.mp ?_)
    rw [UInt32.toNat_mod, hnat, getSerializedSize]
    simp only [UInt32.reduceToNat, UInt32.reduceMul]
    omega
  have hcount : (UInt32.ofNat hna.getSerializedSize / 4 / 2).toNat = hna.associations.length := by
    rw [UInt32.toNat_div, UInt32.toNat_div, hnat, getSerializedSize]
    simp only [UInt32.reduceToNat]
    omega
  rw [Hna.deserialize, if_neg hwhole, hcount, Hna.serialize,
    readMany_flatMap NetworkAddress.deserialize_serialize, Option.map_some]

/-- Each kind of body is read again from the bytes that were written. -/
theorem Message.deserialize_serialize (m : Message) (hsize : m.getSerializedSize < 65536)
    (rest : List UInt8) :
    Message.deserialize m.messageType (UInt32.ofNat m.getSerializedSize) (m.serialize ++ rest) =
      some ((m, UInt32.ofNat m.getSerializedSize), rest) := by
  unfold Message.deserialize
  cases m with
  | HELLO_MESSAGE hello =>
      have htype : (HELLO_MESSAGE hello).messageType = 1 := rfl
      rw [htype, if_neg (by decide), if_pos rfl]
      exact congrArg (Option.map _) (hello.deserialize_serialize hsize rest)
  | TC_MESSAGE tc =>
      have htype : (TC_MESSAGE tc).messageType = 2 := rfl
      rw [htype, if_neg (by decide), if_neg (by decide), if_pos rfl]
      exact congrArg (Option.map _) (tc.deserialize_serialize hsize rest)
  | MID_MESSAGE mid =>
      have htype : (MID_MESSAGE mid).messageType = 3 := rfl
      rw [htype, if_pos rfl]
      exact congrArg (Option.map _) (mid.deserialize_serialize hsize rest)
  | HNA_MESSAGE hna =>
      have htype : (HNA_MESSAGE hna).messageType = 4 := rfl
      rw [htype, if_neg (by decide), if_neg (by decide), if_neg (by decide), if_pos rfl]
      exact congrArg (Option.map _) (hna.deserialize_serialize hsize rest)

/-- A message is read again, and its size is returned. -/
theorem deserialize_serialize (h : MessageHeader) (hsize : h.getSerializedSize < 65536)
    (rest : List UInt8) :
    deserialize (h.serialize ++ rest) = some ((h, UInt32.ofNat h.getSerializedSize), rest) := by
  have hbody : (UInt16.ofNat h.getSerializedSize).toUInt32 - 12 =
      UInt32.ofNat h.message.getSerializedSize := by
    apply UInt32.toNat_inj.mp
    have hnat : (UInt16.ofNat h.getSerializedSize).toNat = h.getSerializedSize := by
      rw [UInt16.toNat_ofNat']
      exact Nat.mod_eq_of_lt hsize
    rw [toNat_bodySize, hnat, UInt32.toNat_ofNat']
    unfold getSerializedSize at hsize ⊢
    rw [if_pos (Nat.le_add_right _ _), Nat.add_sub_cancel_left,
      Nat.mod_eq_of_lt (by omega)]
  have hfields : readFields (h.serialize ++ rest) =
      some (⟨h.message.messageType, h.vTime, UInt16.ofNat h.getSerializedSize,
        h.originatorAddress, h.timeToLive, h.hopCount, h.messageSequenceNumber⟩,
        h.message.serialize ++ rest) := by
    unfold readFields serialize
    simp only [List.cons_append, List.nil_append, List.append_assoc, readU8, Option.bind_some,
      readNtohU16_htonU16, readNtohU32_htonU32, Option.map_some]
  unfold deserialize
  rw [hfields, Option.bind_some]
  dsimp only
  rw [hbody, h.message.deserialize_serialize (by unfold getSerializedSize at hsize; omega),
    Option.map_some]
  have htotal : 12 + UInt32.ofNat h.message.getSerializedSize =
      UInt32.ofNat h.getSerializedSize := by
    rw [getSerializedSize, UInt32.ofNat_add]
    rfl
  dsimp only
  rw [htotal]

/-- Reading stays within the announced size if and only if the message is not a HELLO that
overruns; and what was written is read again. -/
theorem deserialize_total_iff (received : Received) :
    (StaysWithin received.bytes ↔ ¬ Overruns received.bytes) ∧
      ∀ (h : MessageHeader) (rest : List UInt8), h.getSerializedSize < 65536 →
        deserialize (h.serialize ++ rest) =
          some ((h, UInt32.ofNat h.getSerializedSize), rest) :=
  ⟨staysWithin_iff received.length_lt, fun h rest hsize => h.deserialize_serialize hsize rest⟩

/-- A HELLO that announces no byte, with one link message of 65520 bytes. -/
def endlessHello : Received where
  bytes := [1, 0, 0, 0, 0, 0, 0, 0, 0, 0, 0, 0, 0, 0, 0, 0, 0, 0, 0xff, 0xf0] ++
    List.replicate 65516 0
  length_lt := by
    rw [List.length_append, List.length_replicate]
    decide

theorem endlessHello_overruns : Overruns endlessHello.bytes := by
  have hsize : sizeAt endlessHello.bytes 0 = 0 := rfl
  have hlink : (sizeAt endlessHello.bytes 16).toNat = 65520 := rfl
  have hlength : endlessHello.bytes.length = 65536 := by
    rw [endlessHello, List.length_append, List.length_replicate]
    rfl
  refine ⟨rfl, by rw [hsize]; decide, 65536, ?_, by rw [hsize]; decide⟩
  rw [hsize]
  refine .next (by decide) (by rw [hlink]; decide) (by rw [hlink]) ?_ ?_
  · rw [hlink, hlength]
  · rw [hlink]
    exact .done (by decide)

/-- It is read for 65536 bytes, and 0 is returned. -/
theorem not_staysWithin_endlessHello :
    sizeAt endlessHello.bytes 0 = 0 ∧ ¬ StaysWithin endlessHello.bytes := by
  refine ⟨rfl, fun h => ?_⟩
  obtain ⟨r, hr, hlt⟩ := endlessHello_overruns.reads_beyond endlessHello.length_lt
  exact absurd (h r hr).1 (Nat.not_le.mpr hlt)

/-- A HELLO of 24 bytes with one link message. -/
def hello : MessageHeader := ⟨0, 5, 1, 0, 7, .HELLO_MESSAGE ⟨0, 3, [⟨6, [8]⟩]⟩⟩

/-- The HELLO with another message behind it. -/
def helloReceived : Received where
  bytes := hello.serialize ++ [3, 0, 0, 16]
  length_lt := by decide

theorem helloReceived_not_overruns : ¬ Overruns helloReceived.bytes := by
  have hsize : (sizeAt helloReceived.bytes 0).toNat = 24 := by decide
  have hlink : (sizeAt helloReceived.bytes 16).toNat = 8 := by decide
  rintro ⟨-, -, q, hchain, hne⟩
  rw [hsize] at hchain hne
  cases hchain with
  | done hend => exact absurd hend (by decide)
  | next _ _ _ _ hrest =>
      rw [hlink] at hrest
      cases hrest with
      | done => exact hne rfl
      | next hmore => exact hmore (by decide)

/-- Reading the HELLO leaves what is behind it alone, and the HELLO is read again. -/
theorem deserialize_total_iff_hello :
    (∃ r, deserialize helloReceived.bytes = some r ∧ r.2 = [3, 0, 0, 16]) ∧
      StaysWithin helloReceived.bytes ∧
        deserialize (hello.serialize ++ [3, 0, 0, 16]) = some ((hello, 24), [3, 0, 0, 16]) := by
  obtain ⟨hiff, hagain⟩ := deserialize_total_iff helloReceived
  have hread := hagain hello [3, 0, 0, 16] (by decide)
  exact ⟨⟨_, hread, rfl⟩, hiff.mpr helloReceived_not_overruns, hread⟩

end Ns3Rdma.OlsrWire.MessageHeader
