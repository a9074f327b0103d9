import AArch64.Proofs.Images.Encoding
import AArch64.Proofs.Loading
import Mathlib.Control.Monad.Basic

/-! From the program headers of a file to the memory of a machine. Each header that is loaded gives a segment, each
segment a block, and the bytes of the block are those of the file with zeros behind them. -/
namespace AArch64

/-- Of the blocks of a memory only the one that holds a byte answers for it. -/
theorem Memory.loadBlock_byte {m : Memory} {b : Block} {a : BitVec 64} (hb : b ∈ m.blocks) (ha : b.Contains a)
    (honly : ∀ b' ∈ m.blocks, b'.Contains a → b' = b) :
    (m.loadBlock a 1).1 = .ok [b.byte (a.toNat - b.base.toNat)] := by
  obtain ⟨i, offset, hresolve⟩ := exists_resolve_of_covers hb (k := 1) ha
  obtain ⟨b', hb', hoffset⟩ := m.exists_block_of_resolve hresolve
  obtain ⟨hcovers, rfl⟩ := Block.offset?_eq_some_iff_covers.1 hoffset
  obtain rfl := honly b' (List.mem_of_getElem? hb') hcovers
  simp [loadBlock, hresolve, bytesAt, hb', Block.load]

namespace Elf

def ProgramHeader.Contains (h : ProgramHeader) (a : BitVec 64) : Prop :=
  h.address.toNat ≤ a.toNat ∧ a.toNat < h.address.toNat + h.memorySize.toNat

instance (h : ProgramHeader) (a : BitVec 64) : Decidable (h.Contains a) := inferInstanceAs (Decidable (_ ∧ _))

def ProgramHeader.MayWrite (h : ProgramHeader) : Bool := h.flags.getLsbD 1

namespace Contents

variable (c : Contents)

/-- The headers of segments that are loaded and take memory, in the order of the table. -/
def loadedHeaders : List ProgramHeader := c.programHeaders.filter fun h => h.kind = 1#32 ∧ h.memorySize ≠ 0#64

/-- The bytes of the segment are all in the file. -/
def HoldsSegment (h : ProgramHeader) : Prop := h.offset.toNat + h.fileSize.toNat ≤ c.size

instance (h : ProgramHeader) : Decidable (c.HoldsSegment h) := inferInstanceAs (Decidable (_ ≤ _))

def segment (h : ProgramHeader) : Segment where
  base := h.address
  bytes := (c.toList.drop h.offset.toNat).take h.fileSize.toNat
  memLen := h.memorySize
  writable := h.MayWrite

/-- The byte that is in memory that far from the start of the segment. -/
def segmentByte (h : ProgramHeader) (i : Nat) : BitVec 8 :=
  if i < h.fileSize.toNat then c.getD (h.offset.toNat + i) 0#8 else 0#8

variable {c} {h : ProgramHeader}

theorem takesMemory_segment (hh : h ∈ c.loadedHeaders) : (c.segment h).takesMemory = true := by
  have hloaded := (List.mem_filter.1 hh).2
  simp only [decide_eq_true_eq] at hloaded
  simp [Segment.takesMemory, segment, hloaded.2]

theorem length_bytes_segment (hheld : c.HoldsSegment h) : (c.segment h).bytes.length = h.fileSize.toNat := by
  have hle : h.offset.toNat + h.fileSize.toNat ≤ c.size := hheld
  simp only [segment, List.length_take, List.length_drop, Array.length_toList]
  omega

theorem byte_block_segment {i : Nat} (hi : i < h.memorySize.toNat) : (c.segment h).block.byte i = c.segmentByte h i := by
  have hbyte : (c.segment h).block.byte i = (c.segment h).bytes[i]?.getD 0#8 := Block.byte_ofBytes hi
  rw [hbyte, segment, List.getElem?_take, segmentByte]
  split
  · simp [Array.getD_eq_getD_getElem?]
  · rfl

theorem contains_block_segment {a : BitVec 64} : (c.segment h).block.Contains a ↔ h.Contains a := by
  rw [Block.Contains, Segment.block, Block.base_ofBytes, Block.len_ofBytes]
  rfl

theorem extent_block_segment : (c.segment h).block.extent = (h.address, h.memorySize.toNat, h.MayWrite) := by
  simp [Block.extent, Segment.block, segment, Block.ofBytes]

end Contents

namespace ProgramHeader

variable {c : Contents} {h : ProgramHeader}

/-- Offsets stop at the greatest one, which lies in no file. -/
theorem segment_cases (hsize : c.size < 2 ^ 64 - 1) (h : ProgramHeader) :
    c.HoldsSegment h ∧ h.segment c = .ok (c.segment h) ∨ ¬c.HoldsSegment h ∧ ∃ e, h.segment c = .error e := by
  have hheld : c.HoldsSegment h ↔ h.fileEnd ≤ c.size := by
    rw [Contents.HoldsSegment, fileEnd]
    omega
  by_cases hend : h.fileEnd ≤ c.size
  · have hsum : h.fileEnd = h.offset.toNat + h.fileSize.toNat := by
      unfold fileEnd at hend ⊢
      omega
    have hwritable : (h.flags &&& writable != 0#32) = h.MayWrite := by
      have htwo : writable = BitVec.twoPow 32 1 := rfl
      rw [MayWrite, htwo, BitVec.and_twoPow]
      cases h.flags.getLsbD 1 <;> rfl
    refine .inl ⟨hheld.2 hend, ?_⟩
    rw [segment, if_pos hend, hwritable, hsum, Array.toList_extract, List.extract_eq_take_drop, Nat.add_sub_cancel_left]
    rfl
  · exact .inr ⟨fun hh => hend (hheld.1 hh), .truncated h.address h.offset.toNat h.fileEnd, if_neg hend⟩

theorem mapM_segment_eq_ok_iff (hsize : c.size < 2 ^ 64 - 1) {headers : List ProgramHeader} {segments : List Segment} :
    headers.mapM (·.segment c) = .ok segments ↔
      (∀ h ∈ headers, c.HoldsSegment h) ∧ segments = headers.map c.segment := by
  induction headers generalizing segments with
  | nil => simp [pure, Except.pure, eq_comm]
  | cons h headers ih =>
    rw [List.mapM_cons, List.forall_mem_cons]
    obtain ⟨hheld, hsegment⟩ | ⟨hheld, e, herror⟩ := segment_cases hsize h
    · cases hrest : headers.mapM (·.segment c) with
      | error e =>
        have hnot : ¬∀ h ∈ headers, c.HoldsSegment h := fun hall => by simpa [hrest] using ih.2 ⟨hall, rfl⟩
        simp [hsegment, hnot, bind, Except.bind]
      | ok rest =>
        obtain ⟨hall, rfl⟩ := ih.1 hrest
        rw [and_iff_right ⟨hheld, hall⟩]
        simp [hsegment, bind, Except.bind, pure, Except.pure, eq_comm]
    · simp [herror, hheld, bind, Except.bind]

end ProgramHeader
namespace Image

variable {reader : Contents → Option File} {c : Contents} {image : Image}

/-- An image has its segments from the headers that are loaded, and all their bytes are in the file. -/
theorem segments_of_readWith (hreader : File.ReadsEncoded reader) (hsize : c.size < 2 ^ 64 - 1)
    (h : readWith reader c = .ok image) :
    (∀ h ∈ c.loadedHeaders, c.HoldsSegment h) ∧ image.segments = c.loadedHeaders.map c.segment := by
  obtain ⟨file, hfile, himage⟩ := readWith_eq_ok_iff.1 h
  obtain ⟨hformat, -, hsegments, -⟩ := ofFile_eq_ok_iff.1 himage
  have hloaded : file.programHeaders.filter (·.isLoaded) = c.loadedHeaders := by
    rw [(hreader c file hfile hformat).programHeaders, Contents.loadedHeaders]
    refine List.filter_congr fun h _ => ?_
    rw [Bool.eq_iff_iff]
    simp [ProgramHeader.isLoaded, ProgramHeader.load]
  rw [hloaded] at hsegments
  exact (ProgramHeader.mapM_segment_eq_ok_iff hsize).1 hsegments

end Image

namespace Contents

variable {c : Contents} {m n : Machine}

theorem takesMemory_of_mem {s : Segment} (hs : s ∈ c.loadedHeaders.map c.segment) : s.takesMemory = true := by
  obtain ⟨h, hh, rfl⟩ := List.mem_map.1 hs
  exact takesMemory_segment hh

theorem load_segments (hload : Machine.load (c.loadedHeaders.map c.segment) m = (.ok (), n)) :
    n.core.memory.blocks = m.core.memory.blocks ++ c.loadedHeaders.map fun h => (c.segment h).block := by
  obtain ⟨-, heq⟩ | ⟨_, _, _, -, -, heq⟩ := Machine.load_cases (c.loadedHeaders.map c.segment) m
  · obtain ⟨-, rfl⟩ := Prod.mk.inj (hload.symm.trans heq)
    have hall : (c.loadedHeaders.map c.segment).filter Segment.takesMemory = c.loadedHeaders.map c.segment :=
      List.filter_eq_self.2 fun s => takesMemory_of_mem
    rw [Machine.place, hall, List.map_map]
    rfl
  · rw [heq] at hload
    cases hload

/-- A byte of a segment is read where no other segment has the address. -/
theorem readMemory_of_blocks (hblocks : m.core.memory.blocks = c.loadedHeaders.map fun h => (c.segment h).block)
    {h : ProgramHeader} (hh : h ∈ c.loadedHeaders) {i : Nat} (hi : i < h.memorySize.toNat) {a : BitVec 64}
    (ha : a.toNat = h.address.toNat + i) (honly : ∀ h' ∈ c.loadedHeaders, h'.Contains a → h' = h) :
    (m.readMemory a 1).1 = .ok [c.segmentByte h i] := by
  have hmem : (c.segment h).block ∈ m.core.memory.blocks := hblocks ▸ List.mem_map_of_mem hh
  have hcontains : (c.segment h).block.Contains a := contains_block_segment.2 ⟨by omega, by omega⟩
  have honlyBlock : ∀ b ∈ m.core.memory.blocks, b.Contains a → b = (c.segment h).block := by
    intro b hb hba
    rw [hblocks] at hb
    obtain ⟨h', hh', rfl⟩ := List.mem_map.1 hb
    rw [honly h' hh' (contains_block_segment.1 hba)]
  have hoffset : a.toNat - (c.segment h).block.base.toNat = i := by
    rw [Segment.block, Block.base_ofBytes, ha]
    exact Nat.add_sub_cancel_left _ _
  have hload := Memory.loadBlock_byte hmem hcontains honlyBlock
  have hread : (m.readMemory a 1).1 = (m.core.memory.loadBlock a 1).1.mapError fun _ => .memoryException := rfl
  rw [hread, hload, hoffset, byte_block_segment hi]
  rfl

/-- Bytes of the file that have no place in memory make loading fail. -/
theorem load_fails_of_too_many_bytes {h : ProgramHeader} (hh : h ∈ c.loadedHeaders) (hheld : c.HoldsSegment h)
    (hlarge : h.memorySize.toNat < h.fileSize.toNat) :
    ∃ e, (Machine.load (c.loadedHeaders.map c.segment) m).1 = .error e := by
  obtain ⟨haccepts, -⟩ | ⟨_, _, e, -, -, heq⟩ := Machine.load_cases (c.loadedHeaders.map c.segment) m
  · have hfits := haccepts.fits (List.mem_map_of_mem hh) (takesMemory_segment hh)
    rw [length_bytes_segment hheld] at hfits
    exact absurd hlarge (Nat.not_lt.2 hfits)
  · exact ⟨e, congrArg Prod.fst heq⟩

end Contents

/-- The segments of an image are the headers that are loaded, and what a fresh machine finds behind their addresses is
the file, with zeros where it has no more bytes for a segment. No file is as long as the greatest offset. -/
theorem Image.segments_from_file_to_memory {reader : Contents → Option File} (hreader : File.ReadsEncoded reader)
    (c : Contents) (hsize : c.size < 2 ^ 64 - 1) (settings : Settings) :
    ((∃ h ∈ c.loadedHeaders, c.size < h.offset.toNat + h.fileSize.toNat) → ∃ e, readWith reader c = .error e) ∧
    ∀ image, readWith reader c = .ok image →
      image.segments = c.loadedHeaders.map c.segment ∧
      ((∃ h ∈ c.loadedHeaders, h.memorySize.toNat < h.fileSize.toNat) →
        ∃ e, (Machine.load image.segments { settings }).1 = .error e) ∧
      ∀ m, Machine.load image.segments { settings } = (.ok (), m) →
        m.core.memory.layout = c.loadedHeaders.map (fun h => (h.address, h.memorySize.toNat, h.MayWrite)) ∧
        ∀ h ∈ c.loadedHeaders, ∀ i < h.memorySize.toNat, ∀ a : BitVec 64, a.toNat = h.address.toNat + i →
          (∀ h' ∈ c.loadedHeaders, h'.Contains a → h' = h) → (m.readMemory a 1).1 = .ok [c.segmentByte h i] := by
  constructor
  · rintro ⟨h, hh, hbeyond⟩
    cases himage : readWith reader c with
    | error e => exact ⟨e, rfl⟩
    | ok image => exact absurd ((segments_of_readWith hreader hsize himage).1 h hh) (Nat.not_le.2 hbeyond)
  · intro image himage
    obtain ⟨hheld, hsegments⟩ := segments_of_readWith hreader hsize himage
    rw [hsegments]
    refine ⟨rfl, fun ⟨h, hh, hlarge⟩ => Contents.load_fails_of_too_many_bytes hh (hheld h hh) hlarge, fun m hload => ?_⟩
    have hblocks : m.core.memory.blocks = c.loadedHeaders.map fun h => (c.segment h).block :=
      Contents.load_segments hload
    constructor
    · rw [Memory.layout, hblocks, List.map_map]
      exact List.map_congr_left fun h _ => Contents.extent_block_segment
    · intro h hh i hi a ha honly
      exact Contents.readMemory_of_blocks hblocks hh hi ha honly

/-- A note, a segment that takes no memory, and one with two bytes of the file and two zeros behind them. -/
theorem Image.segments_from_file_to_memory_zeros :
    let c : Contents := .ofNumbers [(4, 0x464C457F), (1, 2), (1, 1), (1, 1), (9, 0), (2, 2), (2, 183), (4, 1),
      (8, 0x400000), (8, 64), (8, 0), (4, 0), (2, 64), (2, 56), (2, 3), (2, 64), (2, 0), (2, 0),
      (4, 4), (4, 4), (8, 0), (8, 0x400000), (8, 0), (8, 4), (8, 4), (8, 1),
      (4, 1), (4, 4), (8, 999), (8, 0x400000), (8, 0), (8, 4), (8, 0), (8, 1),
      (4, 1), (4, 6), (8, 232), (8, 0x400000), (8, 0), (8, 2), (8, 4), (8, 1),
      (1, 0xAB), (1, 0xCD), (1, 0xEF)]
    ∃ image m, readWith File.read? c = .ok image ∧ Machine.load image.segments {} = (.ok (), m) ∧
      m.core.memory.layout = [(0x400000#64, 4, true)] ∧
      (m.readMemory 0x400001#64 1).1 = .ok [0xCD#8] ∧ (m.readMemory 0x400002#64 1).1 = .ok [0#8] := by
  intro c
  let segment : Segment := { base := 0x400000#64, bytes := [0xAB#8, 0xCD#8], memLen := 4#64, writable := true }
  let h : ProgramHeader := ⟨1#32, 6#32, 232#64, 0x400000#64, 2#64, 4#64⟩
  have hread : readWith File.read? c = .ok ⟨0x400000#64, [segment], none⟩ := by decide +kernel
  have hheaders : c.loadedHeaders = [h] := by decide +kernel
  have hload : (Machine.load [segment] {}).1 = .ok () := by decide +kernel
  obtain ⟨-, himage⟩ := segments_from_file_to_memory File.readsEncoded_read? c (by decide +kernel) {}
  obtain ⟨-, -, hmemory⟩ := himage _ hread
  obtain ⟨hlayout, hbytes⟩ := hmemory _ (Prod.ext hload rfl)
  rw [hheaders] at hlayout hbytes
  have honly : ∀ a, ∀ h' ∈ [h], h'.Contains a → h' = h := fun a h' hh' _ => List.mem_singleton.1 hh'
  have hone := hbytes h (List.mem_singleton_self h) 1 (by decide) 0x400001#64 rfl (honly _)
  have htwo := hbytes h (List.mem_singleton_self h) 2 (by decide) 0x400002#64 rfl (honly _)
  have hfile : c.segmentByte h 1 = 0xCD#8 ∧ c.segmentByte h 2 = 0#8 := by decide +kernel
  rw [hfile.1] at hone
  rw [hfile.2] at htwo
  exact ⟨_, _, hread, Prod.ext hload rfl, hlayout.trans (by decide +kernel), hone, htwo⟩

end Elf
end AArch64
