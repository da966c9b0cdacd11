import Mathlib.Data.List.Nodup
import Mathlib.Data.UInt

/-! # Packet tags

A packet carries a list of tags, at most one of each type. `Add` asserts that the type is new. -/

namespace Ns3Rdma

/-- The type ids of tags, as far as the devices know them. -/
inductive TagType where
  | flowIdTag
  | other (uid : UInt16)
deriving DecidableEq

/-- An entry of the list. Of the data, the word that a `FlowIdTag` writes is kept. -/
structure TagData where
  tid : TagType
  flowId : UInt32
deriving DecidableEq

structure PacketTagList where
  entries : List TagData
  unique : (entries.map TagData.tid).Nodup

namespace PacketTagList

def empty : PacketTagList := ⟨[], List.nodup_nil⟩

/-- `none` is the failed assertion. -/
def add (l : PacketTagList) (tag : TagData) : Option PacketTagList :=
  if h : tag.tid ∉ l.entries.map TagData.tid then
    some ⟨tag :: l.entries, List.nodup_cons.mpr ⟨h, l.unique⟩⟩
  else none

/-- All entries of the type are left out. -/
def remove (l : PacketTagList) (tid : TagType) : PacketTagList where
  entries := l.entries.filter fun tag => tag.tid ≠ tid
  unique := l.unique.sublist (List.filter_sublist.map _)

def peek (l : PacketTagList) (tid : TagType) : Option TagData :=
  l.entries.find? fun tag => tag.tid = tid

/-- The packet carries a tag of the type. -/
def Carries (l : PacketTagList) (tid : TagType) : Prop := tid ∈ l.entries.map TagData.tid

instance (l : PacketTagList) : DecidablePred l.Carries := fun tid =>
  inferInstanceAs (Decidable (tid ∈ l.entries.map TagData.tid))

variable {l next : PacketTagList} {tag : TagData} {tid : TagType}

@[ext] theorem ext {first second : PacketTagList} (h : first.entries = second.entries) :
    first = second := by
  cases first
  cases second
  congr

/-- `Add` succeeds exactly on a packet without a tag of the type. -/
theorem isSome_add : (l.add tag).isSome = true ↔ ¬ l.Carries tag.tid := by
  unfold add Carries
  split
  next h => exact iff_of_true rfl h
  next h => exact iff_of_false Bool.false_ne_true h

theorem carries_of_add (h : l.add tag = some next) : next.Carries tid ↔
    tid = tag.tid ∨ l.Carries tid := by
  unfold add at h
  split at h
  · obtain rfl := Option.some.inj h
    exact List.mem_cons
  · cases h

theorem carries_remove {removed : TagType} :
    (l.remove removed).Carries tid ↔ l.Carries tid ∧ tid ≠ removed := by
  unfold Carries remove
  simp only [List.mem_map, List.mem_filter, decide_eq_true_eq]
  constructor
  · rintro ⟨tag, ⟨hmem, hne⟩, rfl⟩
    exact ⟨⟨tag, hmem, rfl⟩, hne⟩
  · rintro ⟨⟨tag, hmem, rfl⟩, hne⟩
    exact ⟨tag, ⟨hmem, hne⟩, rfl⟩

/-- A tag that was added can be read, and removing it gives the old list back. -/
theorem peek_of_add (h : l.add tag = some next) : next.peek tag.tid = some tag := by
  unfold add at h
  split at h
  · obtain rfl := Option.some.inj h
    exact List.find?_cons_of_pos (decide_eq_true rfl)
  · cases h

end PacketTagList

end Ns3Rdma
