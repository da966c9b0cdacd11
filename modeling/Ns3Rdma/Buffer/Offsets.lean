import Ns3Rdma.Buffer.Pool
import Ns3Rdma.Buffer.FullCopy

/-! # The offsets of a buffer after a call

Whoever keeps offsets into a buffer, as the byte tags of a packet do, has to know where a call
leaves its start and end. -/

namespace Ns3Rdma

open Memory BufferHeap

namespace Buffer

variable {fresh : ℕ → ℕ → UInt8} {h h' : BufferHeap} {b next : Buffer} {n : UInt32}

/-- `AddAtStart` takes bytes before the buffer, and reports no resize. -/
def ReusesFront (h : BufferHeap) (b : Buffer) (n : UInt32) : Prop :=
  n ≤ b.start ∧ ¬ (1 < (h.data b.data).count ∧ (h.data b.data).dirtyStart < b.start) ∧
    ¬ (h.data b.data).dirtyStart < b.start - n

theorem addAtStart_of_not_resized (hadd : b.addAtStart fresh h n = some (h', next, false)) :
    b.ReusesFront h n ∧ next.start.toNat + n.toNat = b.start.toNat := by
  unfold addAtStart at hadd
  dsimp only at hadd
  split at hadd
  next hplace =>
    obtain ⟨hle, hclean⟩ := hplace
    rw [not_dirty_iff] at hclean
    split at hadd
    · obtain ⟨-, rfl, hresized⟩ := by simpa only [Option.some.injEq, Prod.mk.injEq] using hadd
      have hle' := UInt32.le_iff_toNat_le.mp hle
      refine ⟨⟨hle, hclean, of_decide_eq_false hresized⟩, ?_⟩
      dsimp only [noteZeroArea]
      rw [UInt32.toNat_sub_of_toNat_le hle']
      omega
    · exact absurd hadd (by simp)
  next =>
    obtain ⟨copied, -, hresult⟩ := Option.map_eq_some_iff.mp hadd
    simp at hresult

theorem addAtEnd_of_not_resized (hadd : b.addAtEnd fresh h n = some (h', next, false)) :
    b.GrowsInPlace h n ∧ next.start = b.start := by
  unfold addAtEnd at hadd
  dsimp only at hadd
  split at hadd
  next hplace =>
    obtain ⟨hle, hclean⟩ := hplace
    rw [not_dirty_iff] at hclean
    split at hadd
    · obtain ⟨-, rfl, -⟩ := by simpa only [Option.some.injEq, Prod.mk.injEq] using hadd
      exact ⟨⟨hle, hclean⟩, rfl⟩
    · exact absurd hadd (by simp)
  next =>
    obtain ⟨copied, -, hresult⟩ := Option.map_eq_some_iff.mp hadd
    simp at hresult

theorem addAtEnd_of_resized (hadd : b.addAtEnd fresh h n = some (h', next, true)) :
    ¬ b.GrowsInPlace h n ∧ next.start = 0 := by
  unfold addAtEnd at hadd
  dsimp only at hadd
  split at hadd
  next hplace =>
    -- the dirty area ends at the new end by then
    split at hadd
    · obtain ⟨-, -, hresized⟩ := by simpa only [Option.some.injEq, Prod.mk.injEq] using hadd
      unfold setDirty at hresized
      rw [set_data_self] at hresized
      exact absurd (of_decide_eq_true hresized) (UInt32.lt_irrefl _)
    · exact absurd hadd (by simp)
  next hplace =>
    obtain ⟨copied, -, hresult⟩ := Option.map_eq_some_iff.mp hadd
    obtain ⟨-, rfl, -⟩ := by simpa only [Prod.mk.injEq] using hresult
    refine ⟨fun hgrows => hplace ⟨hgrows.1, not_dirty_iff.mpr hgrows.2⟩, ?_⟩
    dsimp only [noteZeroArea]
    rw [add_sub_cancel]

/-- How far the start of a buffer stays behind when `n` bytes are removed there. The removed bytes
of the zero area do not move it. -/
def startShift (b : Buffer) (n : ℕ) : ℕ :=
  min (b.start.toNat + n - b.zeroAreaStart.toNat) (b.zeroAreaEnd.toNat - b.zeroAreaStart.toNat)

theorem startShift_of_none (h : b.zeroAreaEnd = b.zeroAreaStart) (n : ℕ) : b.startShift n = 0 := by
  unfold startShift
  rw [h, Nat.sub_self, Nat.min_zero]

theorem removeAtStart_start (hb : b.Ordered) (hn : b.start.toNat + n.toNat ≤ b.end'.toNat)
    (hremove : b.removeAtStart n = some next) :
    next.start.toNat + b.startShift n.toNat = b.start.toNat + n.toNat := by
  obtain ⟨hstart, hzero, hend⟩ := id hb
  have hlt := b.end'.toNat_lt
  have hnew : (b.start + n).toNat = b.start.toNat + n.toNat := UInt32.toNat_add_of_lt (by omega)
  have hzeroSize := zeroSize_toNat hb
  unfold startShift
  unfold removeAtStart at hremove
  dsimp only at hremove
  split at hremove
  next hcase =>
    obtain rfl := Option.some.inj hremove
    rw [UInt32.le_iff_toNat_le, hnew] at hcase
    dsimp only [noteZeroArea]
    omega
  next hcase =>
    rw [UInt32.le_iff_toNat_le, hnew] at hcase
    split at hremove
    next hcase' =>
      obtain rfl := Option.some.inj hremove
      rw [UInt32.le_iff_toNat_le, hnew] at hcase'
      dsimp only [noteZeroArea]
      omega
    next hcase' =>
      rw [UInt32.le_iff_toNat_le, hnew] at hcase'
      rw [if_pos (by rw [UInt32.le_iff_toNat_le]; omega),
        if_pos (by rw [UInt32.le_iff_toNat_le]; omega)] at hremove
      obtain rfl := Option.some.inj hremove
      dsimp only [noteZeroArea]
      rw [UInt32.toNat_sub_of_toNat_le (by omega), hnew, hzeroSize]
      omega

theorem removeAtEnd_start (b : Buffer) (n : UInt32) : (b.removeAtEnd n).start = b.start := by
  unfold removeAtEnd
  dsimp only [noteZeroArea]
  split
  · rfl
  · split
    · rfl
    · split
      · rfl
      · rfl

end Buffer

namespace BufferPool

variable {ι : Type*} [DecidableEq ι] {fresh : ℕ → ℕ → UInt8} {s s' : BufferPool ι} {x y z : ι}

/-- Where an instance is. -/
def offsets (s : BufferPool ι) (x : ι) : Option Buffer := (s.inst.entry x).map Handle.toBuffer

omit [DecidableEq ι] in
theorem offsets_of_entry {b : Handle} (hx : s.inst.entry x = some b) :
    s.offsets x = some b.toBuffer := by
  unfold offsets
  rw [hx, Option.map_some]

@[simp] theorem put_offsets_self (s : BufferPool ι) (heap : BufferHeap) (x : ι) (b : Handle) :
    (s.put heap x b).offsets x = some b.toBuffer :=
  offsets_of_entry (Registry.put_entry_self s.inst x b)

theorem put_offsets_of_ne (hz : z ≠ x) (heap : BufferHeap) (b : Handle) :
    (s.put heap x b).offsets z = s.offsets z :=
  congrArg (Option.map Handle.toBuffer) (Registry.put_entry_of_ne hz b)

@[simp] theorem settle_offsets (s : BufferPool ι) (y : ι) : (s.settle y).offsets = s.offsets := by
  unfold settle
  cases hy : s.inst.entry y with
  | none => rfl
  | some b =>
      rw [Option.map_some, Option.getD_some]
      funext z
      by_cases hz : z = y
      · rw [hz, put_offsets_self, offsets_of_entry hy]
        rfl
      · exact put_offsets_of_ne hz _ _

theorem derive_eq_some {f : BufferHeap → Buffer → Option (BufferHeap × Buffer)}
    (hderive : s.derive x y f = some s') : s.inst.entry x = none ∧
      ∃ o made, s.inst.entry y = some o ∧ f s.heap o.toBuffer = some made ∧
        (s.settle y).put made.1 x (Handle.plain made.2) = s' := by
  unfold derive at hderive
  split at hderive
  next hx =>
    obtain ⟨o, hy, hmap⟩ := Option.bind_eq_some_iff.mp hderive
    obtain ⟨made, hmade, heq⟩ := Option.map_eq_some_iff.mp hmap
    exact ⟨hx, o, made, hy, hmade, heq⟩
  · exact absurd hderive (by simp)

theorem derive_offsets_of_ne {f : BufferHeap → Buffer → Option (BufferHeap × Buffer)}
    (hderive : s.derive x y f = some s') (hz : z ≠ x) : s'.offsets z = s.offsets z := by
  obtain ⟨-, o, made, -, -, rfl⟩ := derive_eq_some hderive
  rw [put_offsets_of_ne hz, settle_offsets]

/-- A call leaves the offsets of the other instances alone. -/
theorem step_offsets_of_ne {e : Event ι} (hstep : step fresh s e = some s') (hz : z ≠ e.target) :
    s'.offsets z = s.offsets z := by
  cases e with
  | create x zeroSize =>
      dsimp only [step] at hstep
      split at hstep
      · obtain rfl := Option.some.inj hstep
        exact put_offsets_of_ne hz _ _
      · exact absurd hstep (by simp)
  | copy x y =>
      exact derive_offsets_of_ne (x := x) (y := y) (f := fun h o => some (o.copy h)) hstep hz
  | createFragment x y start length =>
      exact derive_offsets_of_ne (x := x) (y := y) (f := fun h o => o.createFragment h start length)
        hstep hz
  | createFullCopy x y =>
      exact derive_offsets_of_ne (x := x) (y := y) (f := fun h o => o.createFullCopy fresh h)
        hstep hz
  | assign x y =>
      obtain ⟨b, -, hbind⟩ := Option.bind_eq_some_iff.mp hstep
      obtain ⟨o, -, rfl⟩ := Option.map_eq_some_iff.mp hbind
      exact (put_offsets_of_ne hz _ _).trans (congrFun (settle_offsets s y) z)
  | append x y =>
      obtain ⟨b, -, hbind⟩ := Option.bind_eq_some_iff.mp hstep
      obtain ⟨o, -, hmap⟩ := Option.bind_eq_some_iff.mp hbind
      obtain ⟨made, -, rfl⟩ := Option.map_eq_some_iff.mp hmap
      exact (put_offsets_of_ne hz _ _).trans (congrFun (settle_offsets s y) z)
  | addAtStart x n | addAtEnd x n | removeAtStart x n =>
      obtain ⟨b, -, hmap⟩ := Option.bind_eq_some_iff.mp hstep
      obtain ⟨made, -, rfl⟩ := Option.map_eq_some_iff.mp hmap
      exact put_offsets_of_ne hz _ _
  | writeStart x off call | writeEnd x off call =>
      obtain ⟨b, -, hbind⟩ := Option.bind_eq_some_iff.mp hstep
      obtain ⟨i, -, hmap⟩ := Option.bind_eq_some_iff.mp hbind
      obtain ⟨made, -, rfl⟩ := Option.map_eq_some_iff.mp hmap
      exact put_offsets_of_ne hz _ _
  | removeAtEnd x n =>
      obtain ⟨b, -, rfl⟩ := Option.map_eq_some_iff.mp hstep
      exact put_offsets_of_ne hz _ _
  | destroy x =>
      obtain ⟨b, -, rfl⟩ := Option.map_eq_some_iff.mp hstep
      exact congrArg (Option.map Handle.toBuffer) (Registry.drop_entry_of_ne hz)

end BufferPool

end Ns3Rdma
