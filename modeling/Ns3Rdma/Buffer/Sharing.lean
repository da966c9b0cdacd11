import Mathlib.Data.Multiset.Filter
import Ns3Rdma.Buffer.View
import Ns3Rdma.Lib.Others

/-! # Buffers that share their bytes

The buffers that refer to one `Data` object keep inside its dirty area. Only a buffer at the edge of
that area may reserve more bytes in place, and no other buffer represents those bytes. -/

namespace Ns3Rdma

open Memory

/-- A buffer, with the numbers of bytes that its last operation reserved at its two ends and that
it may still write. -/
structure Handle extends Buffer where
  front : ℕ
  back : ℕ

namespace Handle

/-- A buffer after an operation that reserves nothing. -/
def plain (b : Buffer) : Handle := ⟨b, 0, 0⟩

/-- The offsets of a user of a `Data` object. -/
structure Within (d : BufferData) (b : Handle) : Prop where
  ordered : b.Ordered
  dirtyStart_le : d.dirtyStart.toNat ≤ b.start.toNat
  le_dirtyEnd : b.end'.toNat ≤ d.dirtyEnd.toNat
  realEnd_le : b.realEnd ≤ d.size.toNat
  front_le : b.start.toNat + b.front ≤ b.zeroAreaStart.toNat
  back_le : b.zeroAreaEnd.toNat + b.back ≤ b.end'.toNat

/-- What one user of a `Data` object may rely on about another one: at the end of the dirty area no
bytes lie beyond its own, and the bytes it has reserved are its own. -/
structure Apart (d : BufferData) (b c : Handle) : Prop where
  end_le : b.end'.toNat = d.dirtyEnd.toNat → c.realEnd ≤ b.realEnd
  front : b.front = 0 ∨ b.start.toNat + b.front ≤ c.start.toNat
  back : b.back = 0 ∨ c.realEnd + b.back ≤ b.realEnd

variable {d : BufferData} {b : Handle}

/-- The number of users is not read. -/
theorem Within.recount (h : b.Within d) (count : UInt32) : b.Within { d with count := count } :=
  ⟨h.1, h.2, h.3, h.4, h.5, h.6⟩

theorem Apart.recount {c : Handle} (h : b.Apart d c) (count : UInt32) :
    b.Apart { d with count := count } c :=
  ⟨h.1, h.2, h.3⟩

/-- A buffer after it has shrunk, without reservations. -/
theorem Within.shrink {next : Buffer} (h : b.Within d) (hnext : b.ShrinksTo next) :
    (plain next).Within d := by
  obtain ⟨-, ordered, start_le, end_le, realEnd_le, -⟩ := hnext
  refine ⟨ordered, h.dirtyStart_le.trans start_le, end_le.trans h.le_dirtyEnd,
    realEnd_le.trans h.realEnd_le, ordered.start_le, ordered.le_end⟩

/-- A buffer that has shrunk stays apart from the others. -/
theorem Apart.shrink {next : Buffer} {c : Handle} (hb : b.Within d) (hnext : b.ShrinksTo next)
    (h : b.Apart d c ∧ c.Apart d b) :
    (plain next).Apart d c ∧ c.Apart d (plain next) := by
  obtain ⟨⟨bend, -, -⟩, cend, cfront, cback⟩ := h
  have hle := hnext.realEnd_le
  have hstart := hnext.start_le
  constructor
  · refine ⟨fun heq => ?_, Or.inl rfl, Or.inl rfl⟩
    -- still at the end of the dirty area, it has kept all its bytes
    have hend : next.end'.toNat = b.end'.toNat := by
      have hdirty := hb.le_dirtyEnd
      have hless := hnext.end_le
      change next.end'.toNat = d.dirtyEnd.toNat at heq
      omega
    have hreal := hnext.realEnd_eq hend
    change c.realEnd ≤ next.realEnd
    rw [hreal]
    change next.end'.toNat = d.dirtyEnd.toNat at heq
    exact bend (by omega)
  · refine ⟨fun heq => hle.trans (cend heq), ?_, ?_⟩
    · exact cfront.imp_right fun hfront => hfront.trans hstart
    · exact cback.imp_right fun hback => (Nat.add_le_add_right hle _).trans hback

end Handle

/-- The invariant of one `Data` object and the buffers that refer to it. -/
structure Shared (d : BufferData) (users : Multiset Handle) : Prop where
  counted : d.count.toNat = users.card
  within : ∀ b ∈ users, b.Within d
  apart : Others.All (Handle.Apart d) users

namespace Shared

variable {d : BufferData} {b : Handle} {users : Multiset Handle}

theorem cons_iff : Shared d (b ::ₘ users) ↔ d.count.toNat = users.card + 1 ∧ b.Within d ∧
    (∀ c ∈ users, c.Within d ∧ b.Apart d c ∧ c.Apart d b) ∧ Others.All (Handle.Apart d) users := by
  constructor
  · rintro ⟨counted, within, apart⟩
    rw [Others.all_cons] at apart
    rw [Multiset.card_cons] at counted
    refine ⟨counted, within b (Multiset.mem_cons_self b users), fun c hc => ?_, apart.2⟩
    exact ⟨within c (Multiset.mem_cons_of_mem hc), apart.1 c hc⟩
  · rintro ⟨counted, hb, hothers, hall⟩
    refine ⟨by rw [counted, Multiset.card_cons], fun c hc => ?_, ?_⟩
    · rcases Multiset.mem_cons.mp hc with rfl | hc
      · exact hb
      · exact (hothers c hc).1
    · rw [Others.all_cons]
      exact ⟨fun c hc => (hothers c hc).2, hall⟩

/-- A single user has the object for itself. -/
theorem of_count_eq_one (h : Shared d (b ::ₘ users)) (hone : d.count = 1) : users = 0 := by
  have hcounted := (cons_iff.mp h).1
  rw [hone] at hcounted
  apply Multiset.card_eq_zero.mp
  have hnat : (1 : UInt32).toNat = 1 := rfl
  omega

theorem singleton (hcount : d.count = 1) (hb : b.Within d) : Shared d {b} := by
  rw [← Multiset.cons_zero, cons_iff, hcount]
  refine ⟨rfl, hb, fun c hc => absurd hc (Multiset.notMem_zero c), Others.all_zero _⟩

/-- The invariant does not depend on the bytes. -/
theorem congr {other : BufferData} (h : Shared d users) (hcount : other.count = d.count)
    (hsize : other.size = d.size) (hstart : other.dirtyStart = d.dirtyStart)
    (hend : other.dirtyEnd = d.dirtyEnd) : Shared other users := by
  refine ⟨by rw [hcount, h.counted], fun b hb => ?_, ?_⟩
  · obtain ⟨h₁, h₂, h₃, h₄, h₅, h₆⟩ := h.within b hb
    exact ⟨h₁, by rwa [hstart], by rwa [hend], by rwa [hsize], h₅, h₆⟩
  · refine Others.All.mono h.apart ?_
    rintro b - c - ⟨h₁, h₂, h₃⟩
    exact ⟨by rwa [hend], h₂, h₃⟩

/-! ## Operations on one object -/

theorem shrink {next : Buffer} (h : Shared d (b ::ₘ users)) (hnext : b.ShrinksTo next) :
    Shared d (Handle.plain next ::ₘ users) := by
  obtain ⟨counted, hb, hothers, hall⟩ := cons_iff.mp h
  refine cons_iff.mpr ⟨counted, hb.shrink hnext, fun c hc => ?_, hall⟩
  exact ⟨(hothers c hc).1, Handle.Apart.shrink hb hnext (hothers c hc).2⟩

/-- A copy, or a part of one, is one more user. -/
theorem insert {next : Buffer} (h : Shared d (b ::ₘ users)) (hnext : b.ShrinksTo next)
    (hcard : users.card + 2 < 2 ^ 32) :
    Shared { d with count := d.count + 1 }
      (Handle.plain next ::ₘ Handle.plain b.toBuffer ::ₘ users) := by
  have hself : b.ShrinksTo b.toBuffer := by
    have hb := (cons_iff.mp h).2.1
    exact ⟨rfl, hb.ordered, Nat.le_refl _, Nat.le_refl _, Nat.le_refl _, fun _ => rfl⟩
  obtain ⟨counted, hb, hothers, hall⟩ := cons_iff.mp (h.shrink hself)
  have hcount : (d.count + 1).toNat = users.card + 2 := by
    rw [UInt32.toNat_add_of_lt (by rw [counted]; exact hcard), counted]
    rfl
  have hshrunk := cons_iff.mp (h.shrink hnext)
  have hpair : (Handle.plain next).Apart d (Handle.plain b.toBuffer) ∧
      (Handle.plain b.toBuffer).Apart d (Handle.plain next) := by
    constructor
    · refine ⟨fun heq => ?_, Or.inl rfl, Or.inl rfl⟩
      have hdirty := hb.le_dirtyEnd
      have hless := hnext.end_le
      change next.end'.toNat = d.dirtyEnd.toNat at heq
      change b.end'.toNat ≤ d.dirtyEnd.toNat at hdirty
      exact (hnext.realEnd_eq (by omega)).ge
    · exact ⟨fun _ => hnext.realEnd_le, Or.inl rfl, Or.inl rfl⟩
  have hlist : Others.All (Handle.Apart d)
      (Handle.plain next ::ₘ Handle.plain b.toBuffer ::ₘ users) := by
    rw [Others.all_cons]
    refine ⟨fun c hc => ?_, Others.all_cons.mpr ⟨fun c hc => (hothers c hc).2, hall⟩⟩
    rcases Multiset.mem_cons.mp hc with rfl | hc
    · exact hpair
    · exact (hshrunk.2.2.1 c hc).2
  refine ⟨?_, fun c hc => ?_, ?_⟩
  · rw [hcount, Multiset.card_cons, Multiset.card_cons]
  · rcases Multiset.mem_cons.mp hc with rfl | hc
    · exact hshrunk.2.1.recount _
    · rcases Multiset.mem_cons.mp hc with rfl | hc
      · exact hb.recount _
      · exact (hothers c hc).1.recount _
  · exact hlist.mono fun x _ y _ hxy => hxy.recount _

/-- A user leaves. -/
theorem erase (h : Shared d (b ::ₘ users)) : Shared { d with count := d.count - 1 } users := by
  obtain ⟨counted, -, hothers, hall⟩ := cons_iff.mp h
  have hcount : (d.count - 1).toNat = users.card := by
    have hone : (1 : UInt32).toNat = 1 := rfl
    rw [UInt32.toNat_sub_of_toNat_le (by omega), counted, hone, Nat.add_sub_cancel]
  refine ⟨hcount, fun c hc => ?_, ?_⟩
  · exact (hothers c hc).1.recount _
  · exact hall.mono fun x _ y _ hxy => hxy.recount _

theorem one_lt_count (h : Shared d (b ::ₘ users)) (hne : users ≠ 0) : 1 < d.count := by
  obtain ⟨counted, -, -, -⟩ := cons_iff.mp h
  have hcard := Multiset.card_pos.mpr hne
  have hone : (1 : UInt32).toNat = 1 := rfl
  rw [UInt32.lt_iff_toNat_lt]
  omega

/-- With other users, a buffer that may reserve bytes at its start is at the start of the dirty
area. -/
theorem start_le_of_clean (h : Shared d (b ::ₘ users))
    (hclean : ¬ (1 < d.count ∧ d.dirtyStart < b.start)) :
    users = 0 ∨ b.start.toNat = d.dirtyStart.toNat := by
  obtain ⟨-, hb, -, -⟩ := cons_iff.mp h
  rw [or_iff_not_imp_left]
  intro hne
  have hshared := h.one_lt_count hne
  have hnot : ¬ d.dirtyStart.toNat < b.start.toNat := fun hlt =>
    hclean ⟨hshared, UInt32.lt_iff_toNat_lt.mpr hlt⟩
  have hdirty := hb.dirtyStart_le
  omega

/-- A buffer without other users has the only reference. -/
theorem count_eq_one (h : Shared d (b ::ₘ users)) (hzero : users = 0) : d.count = 1 := by
  apply UInt32.toNat_inj.mp
  rw [(cons_iff.mp h).1, hzero]
  rfl

/-- The assertion of `AddAtStart`. -/
theorem start_eq_of_clean (h : Shared d (b ::ₘ users))
    (hclean : ¬ (1 < d.count ∧ d.dirtyStart < b.start)) :
    d.count = 1 ∨ b.start = d.dirtyStart :=
  (h.start_le_of_clean hclean).imp h.count_eq_one UInt32.toNat_inj.mp

/-- `AddAtStart` in place. -/
theorem reserveFront (h : Shared d (b ::ₘ users)) {n : UInt32} (hn : n ≤ b.start)
    (hclean : ¬ (1 < d.count ∧ d.dirtyStart < b.start)) :
    Shared { d with dirtyStart := b.start - n }
      (⟨{ b.toBuffer with start := b.start - n }.noteZeroArea, n.toNat, 0⟩ ::ₘ users) := by
  have hedge := h.start_le_of_clean hclean
  obtain ⟨counted, hb, hothers, hall⟩ := cons_iff.mp h
  have hle := UInt32.le_iff_toNat_le.mp hn
  have hstart : (b.start - n).toNat = b.start.toNat - n.toNat := UInt32.toNat_sub_of_toNat_le hle
  have hordered := hb.ordered
  have hzero := hordered.start_le
  refine cons_iff.mpr ⟨counted, ?_, fun c hc => ?_, ?_⟩
  · refine ⟨⟨?_, hordered.zeroArea_le, hordered.le_end⟩, Nat.le_refl _, hb.le_dirtyEnd,
      hb.realEnd_le, ?_, hordered.le_end⟩
    · change (b.start - n).toNat ≤ b.zeroAreaStart.toNat
      omega
    · change (b.start - n).toNat + n.toNat ≤ b.zeroAreaStart.toNat
      omega
  · obtain ⟨hc', hbc, hcb⟩ := hothers c hc
    obtain ⟨h₁, h₂, h₃, h₄, h₅, h₆⟩ := hc'
    have hnone : b.start.toNat = d.dirtyStart.toNat :=
      hedge.resolve_left fun hzero => absurd hc (hzero ▸ Multiset.notMem_zero c)
    refine ⟨⟨h₁, ?_, h₃, h₄, h₅, h₆⟩, ⟨hbc.end_le, Or.inr ?_, Or.inl rfl⟩, hcb.end_le, ?_, hcb.back⟩
    · change (b.start - n).toNat ≤ c.start.toNat
      omega
    · change (b.start - n).toNat + n.toNat ≤ c.start.toNat
      omega
    · -- nothing is reserved before the start of the dirty area
      left
      rcases hcb.front with hfront | hfront
      · exact hfront
      · omega
  · refine Others.All.mono hall ?_
    rintro x - y - ⟨h₁, h₂, h₃⟩
    exact ⟨h₁, h₂, h₃⟩

theorem end_le_of_clean (h : Shared d (b ::ₘ users))
    (hclean : ¬ (1 < d.count ∧ b.end' < d.dirtyEnd)) :
    users = 0 ∨ b.end'.toNat = d.dirtyEnd.toNat := by
  obtain ⟨-, hb, -, -⟩ := cons_iff.mp h
  rw [or_iff_not_imp_left]
  intro hne
  have hshared := h.one_lt_count hne
  have hnot : ¬ b.end'.toNat < d.dirtyEnd.toNat := fun hlt =>
    hclean ⟨hshared, UInt32.lt_iff_toNat_lt.mpr hlt⟩
  have hdirty := hb.le_dirtyEnd
  omega

/-- The assertion of `AddAtEnd`. -/
theorem end_eq_of_clean (h : Shared d (b ::ₘ users))
    (hclean : ¬ (1 < d.count ∧ b.end' < d.dirtyEnd)) : d.count = 1 ∨ b.end' = d.dirtyEnd :=
  (h.end_le_of_clean hclean).imp h.count_eq_one UInt32.toNat_inj.mp

/-- `AddAtEnd` in place. -/
theorem reserveBack (h : Shared d (b ::ₘ users)) {n : UInt32}
    (hfits : b.end'.toNat + n.toNat < 2 ^ 32) (hroom : b.realEnd + n.toNat ≤ d.size.toNat)
    (hclean : ¬ (1 < d.count ∧ b.end' < d.dirtyEnd)) :
    Shared { d with dirtyEnd := b.end' + n }
      (⟨{ b.toBuffer with end' := b.end' + n }.noteZeroArea, 0, n.toNat⟩ ::ₘ users) := by
  have hedge := h.end_le_of_clean hclean
  obtain ⟨counted, hb, hothers, hall⟩ := cons_iff.mp h
  have hend : (b.end' + n).toNat = b.end'.toNat + n.toNat := UInt32.toNat_add_of_lt hfits
  have hordered := hb.ordered
  obtain ⟨hs, hz, he⟩ := hordered
  have hreal : ({ b.toBuffer with end' := b.end' + n } : Buffer).realEnd =
      b.realEnd + n.toNat := by
    unfold Buffer.realEnd
    dsimp only
    omega
  refine cons_iff.mpr ⟨counted, ?_, fun c hc => ?_, ?_⟩
  · refine ⟨⟨hs, hz, ?_⟩, hb.dirtyStart_le, Nat.le_refl _, ?_, hs, ?_⟩
    · change b.zeroAreaEnd.toNat ≤ (b.end' + n).toNat
      omega
    · rw [Buffer.realEnd_noteZeroArea, hreal]
      exact hroom
    · change b.zeroAreaEnd.toNat + n.toNat ≤ (b.end' + n).toNat
      omega
  · obtain ⟨hc', hbc, hcb⟩ := hothers c hc
    obtain ⟨h₁, h₂, h₃, h₄, h₅, h₆⟩ := hc'
    have hat : b.end'.toNat = d.dirtyEnd.toNat :=
      hedge.resolve_left fun hzero => absurd hc (hzero ▸ Multiset.notMem_zero c)
    have hless := hbc.end_le hat
    refine ⟨⟨h₁, h₂, ?_, h₄, h₅, h₆⟩, ⟨fun _ => ?_, Or.inl rfl, Or.inr ?_⟩, fun heq => ?_,
      hcb.front, ?_⟩
    · change c.end'.toNat ≤ (b.end' + n).toNat
      omega
    · rw [Buffer.realEnd_noteZeroArea, hreal]
      omega
    · rw [Buffer.realEnd_noteZeroArea, hreal]
      exact Nat.add_le_add_right hless _
    · -- another buffer can only be at the new edge if nothing was added
      change c.end'.toNat = (b.end' + n).toNat at heq
      have hcend := hcb.end_le (by omega)
      rw [Buffer.realEnd_noteZeroArea, hreal]
      omega
    · left
      rcases hcb.back with hback | hback
      · exact hback
      · omega
  · refine Others.All.mono hall ?_
    rintro x hx y hy hxy
    obtain ⟨hx', hbx, hxb⟩ := hothers x hx
    have hat : b.end'.toNat = d.dirtyEnd.toNat :=
      hedge.resolve_left fun hzero => absurd hx (hzero ▸ Multiset.notMem_zero x)
    refine ⟨fun heq => ?_, hxy.front, hxy.back⟩
    change x.end'.toNat = (b.end' + n).toNat at heq
    have hdirty := hx'.le_dirtyEnd
    exact hxy.end_le (by omega)

end Shared

end Ns3Rdma
