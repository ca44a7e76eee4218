import Mathlib.Algebra.GroupWithZero.Nat
import Mathlib.Data.List.Basic
import Mathlib.Data.List.Infix
import Mathlib.Data.Nat.Notation
import TianmaCoder.Lib.Checked

/-!
# Frames of a compressed log

A compressed log is a concatenation of Zstandard frames. The scan finds where each frame ends
without decompressing it, and tells a frame that the end of the file cuts from a corrupt one.

## Main definitions

* `scanZstdFrames` — the scan.
* `ZstdFrame` — a structurally valid frame, and the bytes it is written as.

## Main results

* `scanFrames_cut` — the scan of a log that is cut anywhere.
-/

namespace TianmaCoder

namespace Zstd

open Checked

/-- The byte at an offset. -/
def byteAt (buffer : List UInt8) (offset : ℕ) : ℕ := ((buffer[offset]?).getD 0).toNat

/-- `buffer.readUIntLE(offset, n)`. -/
def readUIntLE (buffer : List UInt8) (offset : ℕ) : ℕ → ℕ
  | 0 => 0
  | n + 1 => byteAt buffer offset + 256 * readUIntLE buffer (offset + 1) n

/-- `ZSTD_MAGIC`. -/
def ZSTD_MAGIC : ℕ := 0xFD2FB528

/-- A range of bytes that one frame occupies. -/
structure ZstdFrameRange where
  start : ℕ
  stop : ℕ
  deriving DecidableEq

/-- What a scan finds: the complete frames, and where an incomplete last one begins. -/
structure ZstdFrameScan where
  frames : List ZstdFrameRange
  tornStart : Option ℕ
  deriving DecidableEq

/-- One block: where it ends and whether it is the last one, or nothing when the buffer ends
before that. -/
def scanBlock (buffer : List UInt8) (offset : ℕ) : Except String (Option (ℕ × Bool)) :=
  if buffer.length - offset < 3 then .ok none
  else
    let blockHeader := readUIntLE buffer offset 3
    let lastBlock := blockHeader &&& 1 != 0
    let blockType := (blockHeader >>> 1) &&& 0x03
    let blockSize := blockHeader >>> 3
    if blockType = 0x03 then
      .error s!"corrupt Zstandard session log: reserved block type at byte {offset}"
    else
      let payloadBytes := if blockType = 0x01 then 1 else blockSize
      if buffer.length - (offset + 3) < payloadBytes then .ok none
      else .ok (some (offset + 3 + payloadBytes, lastBlock))

variable {offset : ℕ} {buffer : List UInt8}

/-- A block has a header, and ends within the buffer. -/
theorem bounds_of_scanBlock {next : ℕ} {lastBlock : Bool}
    (h : scanBlock buffer offset = .ok (some (next, lastBlock))) :
    offset < next ∧ offset < buffer.length := by
  simp only [scanBlock] at h
  generalize (if readUIntLE buffer offset 3 >>> 1 &&& 3 = 1 then 1
    else readUIntLE buffer offset 3 >>> 3) = payloadBytes at h
  split at h
  · cases h
  · split at h
    · cases h
    · split at h
      · cases h
      · cases h
        omega

/-- The loop over the blocks of a frame: where the last one ends. -/
def scanBlocks (buffer : List UInt8) (offset : ℕ) : Except String (Option ℕ) :=
  match _h : scanBlock buffer offset with
  | .error message => .error message
  | .ok none => .ok none
  | .ok (some (next, true)) => .ok (some next)
  | .ok (some (next, false)) => scanBlocks buffer next
termination_by buffer.length - offset
decreasing_by
  have hbounds := bounds_of_scanBlock _h
  omega

theorem le_of_scanBlocks {stop : ℕ} (h : scanBlocks buffer offset = .ok (some stop)) :
    offset ≤ stop := by
  induction offset using scanBlocks.induct buffer with
  | case1 offset message hblock => rw [scanBlocks, hblock] at h; cases h
  | case2 offset hblock => rw [scanBlocks, hblock] at h; cases h
  | case3 offset next hblock =>
    rw [scanBlocks, hblock] at h
    cases h
    exact (bounds_of_scanBlock hblock).1.le
  | case4 offset next hblock ih =>
    rw [scanBlocks, hblock] at h
    have hnext := ih h
    have hbounds := bounds_of_scanBlock hblock
    omega

/-- The bytes of the frame header behind its descriptor. -/
def remainingHeaderBytes (descriptor : ℕ) : ℕ :=
  let contentSizeFlag := descriptor >>> 6
  let singleSegment := descriptor &&& 0x20 ≠ 0
  let dictionaryFlag := descriptor &&& 0x03
  let dictionaryBytes := if dictionaryFlag = 3 then 4 else dictionaryFlag
  let contentSizeBytes :=
    if contentSizeFlag = 0 then (if singleSegment then 1 else 0) else 1 <<< contentSizeFlag
  (if singleSegment then 0 else 1) + dictionaryBytes + contentSizeBytes

/-- A frame behind its descriptor: where it ends, or nothing when the buffer ends before that. -/
def scanFrameBody (buffer : List UInt8) (offset descriptor : ℕ) : Except String (Option ℕ) :=
  let checksum := descriptor &&& 0x04 ≠ 0
  if buffer.length - offset < remainingHeaderBytes descriptor then .ok none
  else
    match scanBlocks buffer (offset + remainingHeaderBytes descriptor) with
    | .error message => .error message
    | .ok none => .ok none
    | .ok (some offset) =>
      if checksum then
        if buffer.length - offset < 4 then .ok none else .ok (some (offset + 4))
      else .ok (some offset)

/-- One frame. -/
def scanFrame (buffer : List UInt8) (start : ℕ) : Except String (Option ℕ) :=
  if buffer.length - start < 4 then .ok none
  else if readUIntLE buffer start 4 ≠ ZSTD_MAGIC then
    .error s!"corrupt Zstandard session log: invalid frame magic at byte {start}"
  else if start + 4 = buffer.length then .ok none
  else
    let descriptor := byteAt buffer (start + 4)
    if descriptor &&& 0x18 ≠ 0 then
      .error s!"corrupt Zstandard session log: reserved frame-header bit at byte {start + 4}"
    else scanFrameBody buffer (start + 5) descriptor

theorem le_of_scanFrameBody {descriptor stop : ℕ}
    (h : scanFrameBody buffer offset descriptor = .ok (some stop)) : offset ≤ stop := by
  simp only [scanFrameBody] at h
  split at h
  · cases h
  · split at h
    · cases h
    · cases h
    · next hblocks =>
        have hle := le_of_scanBlocks hblocks
        split at h
        · split at h
          · cases h
          · cases h
            omega
        · cases h
          omega

theorem bounds_of_scanFrame {start stop : ℕ} (h : scanFrame buffer start = .ok (some stop)) :
    start < stop ∧ start < buffer.length := by
  simp only [scanFrame] at h
  split at h
  · cases h
  · split at h
    · cases h
    · split at h
      · cases h
      · split at h
        · cases h
        · have hle := le_of_scanFrameBody h
          omega

/-- The loop over the frames of the buffer. -/
def scanFrames (buffer : List UInt8) (maxFrames : Option ℕ) (frames : List ZstdFrameRange)
    (offset : ℕ) : Except String ZstdFrameScan :=
  if offset < buffer.length then
    match h : scanFrame buffer offset with
    | .error message => .error message
    | .ok none => .ok ⟨frames, some offset⟩
    | .ok (some stop) =>
      let found := frames ++ [⟨offset, stop⟩]
      if maxFrames = some found.length then .ok ⟨found, none⟩
      else scanFrames buffer maxFrames found stop
  else .ok ⟨frames, none⟩
termination_by buffer.length - offset
decreasing_by
  have hbounds := bounds_of_scanFrame h
  omega

/-- Locate complete frames without decompressing their blocks; no limit stands for infinity. -/
def scanZstdFrames (buffer : List UInt8) (maxFrames : Option ℕ) : Except String ZstdFrameScan :=
  scanFrames buffer maxFrames [] 0

/-! ## The container format -/

/-- The kinds of a block that the format does not reserve. -/
inductive BlockType where
  | raw
  | rle
  | compressed
  deriving DecidableEq

/-- The two bits of a block type. -/
def BlockType.code : BlockType → ℕ
  | .raw => 0
  | .rle => 1
  | .compressed => 2

/-- One block: a header of three bytes, then one byte to repeat or as many bytes as its size. -/
structure ZstdBlock where
  type : BlockType
  size : ℕ
  payload : List UInt8
  size_lt : size < 2 ^ 21
  payload_length : payload.length = if type = .rle then 1 else size

/-- The header of a block. -/
def ZstdBlock.header (block : ZstdBlock) (lastBlock : Bool) : ℕ :=
  lastBlock.toNat + 2 * block.type.code + 8 * block.size

/-- A number in `n` bytes, the lowest first. -/
def writeUIntLE (value : ℕ) : ℕ → List UInt8
  | 0 => []
  | n + 1 => UInt8.ofNat value :: writeUIntLE (value / 256) n

def ZstdBlock.bytes (block : ZstdBlock) (lastBlock : Bool) : List UInt8 :=
  writeUIntLE (block.header lastBlock) 3 ++ block.payload

/-- A structurally valid frame: the flags of its header, the header's further bytes (window
descriptor, dictionary id and content size), its blocks, and a checksum where the flag says
so. The reserved bits of the descriptor are clear. -/
structure ZstdFrame where
  contentSizeFlag : Fin 4
  singleSegment : Bool
  checksumFlag : Bool
  dictionaryFlag : Fin 4
  fields : List UInt8
  blocks : List ZstdBlock
  lastBlock : ZstdBlock
  checksum : List UInt8
  fields_length : fields.length = (if singleSegment then 0 else 1) +
    [0, 1, 2, 4].getD dictionaryFlag 0 +
    [if singleSegment then 1 else 0, 2, 4, 8].getD contentSizeFlag 0
  checksum_length : checksum.length = if checksumFlag then 4 else 0

namespace ZstdFrame

variable (frame : ZstdFrame)

/-- The frame header descriptor. -/
def descriptor : ℕ :=
  64 * frame.contentSizeFlag + 32 * frame.singleSegment.toNat + 4 * frame.checksumFlag.toNat +
    frame.dictionaryFlag

/-- The blocks as they are written. -/
def blockBytes : List UInt8 :=
  frame.blocks.flatMap (·.bytes false) ++ frame.lastBlock.bytes true

def bytes : List UInt8 :=
  writeUIntLE ZSTD_MAGIC 4 ++ writeUIntLE frame.descriptor 1 ++ frame.fields ++
    frame.blockBytes ++ frame.checksum

end ZstdFrame

/-- The ranges of frames written one after the other from an offset on. -/
def rangesFrom (offset : ℕ) : List ZstdFrame → List ZstdFrameRange
  | [] => []
  | frame :: frames =>
    ⟨offset, offset + frame.bytes.length⟩ :: rangesFrom (offset + frame.bytes.length) frames

/-- A log of frames. -/
def stream (frames : List ZstdFrame) : List UInt8 := frames.flatMap (·.bytes)

/-! ## Reading what was written -/

@[simp] theorem length_writeUIntLE (value n : ℕ) : (writeUIntLE value n).length = n := by
  induction n generalizing value with
  | zero => rfl
  | succ n ih => rw [writeUIntLE, List.length_cons, ih]

variable (pre : List UInt8)

/-- The byte right after a first part. -/
theorem byteAt_append (byte : UInt8) (tail : List UInt8) :
    byteAt (pre ++ byte :: tail) pre.length = byte.toNat := by
  simp [byteAt]

theorem readUIntLE_writeUIntLE (tail : List UInt8) (value n : ℕ) :
    readUIntLE (pre ++ (writeUIntLE value n ++ tail)) pre.length n = value % 256 ^ n := by
  induction n generalizing pre value with
  | zero => simp [readUIntLE, Nat.mod_one]
  | succ n ih =>
    have hrest := ih (pre ++ [UInt8.ofNat value]) (value / 256)
    rw [List.append_assoc, List.singleton_append, ← List.cons_append, List.length_append,
      List.length_singleton] at hrest
    have hpow : 256 ^ (n + 1) = 256 * 256 ^ n := Nat.pow_succ'
    rw [readUIntLE, writeUIntLE, hrest, List.cons_append, byteAt_append, UInt8.toNat_ofNat',
      hpow, Nat.mod_mul]

variable {t : List UInt8}

/-- A cut of two parts is in the first one, or has all of it. -/
theorem cut_cases {a b : List UInt8} (h : t <+: a ++ b) :
    (t <+: a ∧ t.length < a.length) ∨ ∃ t', t = a ++ t' ∧ t' <+: b := by
  by_cases hlength : t.length < a.length
  · exact .inl ⟨List.prefix_of_prefix_length_le h (List.prefix_append a b) hlength.le, hlength⟩
  · have ha : a <+: t :=
      List.prefix_of_prefix_length_le (List.prefix_append a b) h (Nat.not_lt.mp hlength)
    obtain ⟨t', rfl⟩ := ha
    exact .inr ⟨t', rfl, (List.prefix_append_right_inj a).mp h⟩

/-! ## Blocks -/

theorem BlockType.code_le (type : BlockType) : type.code ≤ 2 := by
  cases type <;> decide

namespace ZstdBlock

variable (block : ZstdBlock) (lastBlock : Bool)

theorem header_lt : block.header lastBlock < 256 ^ 3 := by
  have hsize := block.size_lt
  have hcode := block.type.code_le
  have hlast : lastBlock.toNat ≤ 1 := Bool.toNat_le lastBlock
  rw [header]
  omega

theorem header_last : (block.header lastBlock &&& 1 != 0) = lastBlock := by
  have hmod : block.header lastBlock &&& 1 = lastBlock.toNat := by
    have hlast : lastBlock.toNat ≤ 1 := Bool.toNat_le lastBlock
    rw [Nat.and_one_is_mod, header]
    omega
  rw [hmod]
  cases lastBlock <;> rfl

theorem header_type : (block.header lastBlock >>> 1) &&& 0x03 = block.type.code := by
  have hcode := block.type.code_le
  have hlast : lastBlock.toNat ≤ 1 := Bool.toNat_le lastBlock
  rw [Nat.shiftRight_eq_div_pow, show (0x03 : ℕ) = 2 ^ 2 - 1 from rfl,
    Nat.and_two_pow_sub_one_eq_mod, header]
  omega

theorem header_size : block.header lastBlock >>> 3 = block.size := by
  have hcode := block.type.code_le
  have hlast : lastBlock.toNat ≤ 1 := Bool.toNat_le lastBlock
  rw [Nat.shiftRight_eq_div_pow, header]
  omega

theorem length_bytes : (block.bytes lastBlock).length = 3 + block.payload.length := by
  rw [bytes, List.length_append, length_writeUIntLE]

theorem payload_eq : (if block.type.code = 0x01 then 1 else block.size) = block.payload.length := by
  rw [block.payload_length]
  cases block.type <;> simp [BlockType.code]

end ZstdBlock

variable {rest : List UInt8}

theorem scanBlock_cut (block : ZstdBlock) (lastBlock : Bool)
    (hcut : t <+: block.bytes lastBlock ++ rest) :
    scanBlock (pre ++ t) pre.length =
      .ok (if t.length < (block.bytes lastBlock).length then none
        else some (pre.length + (block.bytes lastBlock).length, lastBlock)) := by
  have hlength := block.length_bytes lastBlock
  rw [ZstdBlock.bytes, List.append_assoc] at hcut
  have hbuffer : (pre ++ t).length - pre.length = t.length := by
    rw [List.length_append]
    omega
  rcases cut_cases hcut with ⟨_, hshort⟩ | ⟨t', rfl, hpayload⟩
  · rw [length_writeUIntLE] at hshort
    have hshort' : t.length < (block.bytes lastBlock).length := by omega
    rw [scanBlock, hbuffer, if_pos hshort, if_pos hshort']
  · have hheader : readUIntLE (pre ++ (writeUIntLE (block.header lastBlock) 3 ++ t')) pre.length 3
        = block.header lastBlock := by
      rw [readUIntLE_writeUIntLE, Nat.mod_eq_of_lt (block.header_lt lastBlock)]
    have hlong : ¬(writeUIntLE (block.header lastBlock) 3 ++ t').length < 3 := by
      rw [List.length_append, length_writeUIntLE]
      omega
    have hcode : ¬block.type.code = 0x03 := by
      have hle := block.type.code_le
      omega
    have hleft : (pre ++ (writeUIntLE (block.header lastBlock) 3 ++ t')).length -
        (pre.length + 3) = t'.length := by
      rw [List.length_append, List.length_append, length_writeUIntLE]
      omega
    simp only [scanBlock, hbuffer, if_neg hlong, hheader, block.header_type, if_neg hcode,
      block.header_size, block.header_last, block.payload_eq, hleft]
    rw [List.length_append, length_writeUIntLE, hlength]
    by_cases hshort : t'.length < block.payload.length
    · rw [if_pos hshort, if_pos (by omega)]
    · rw [if_neg hshort, if_neg (by omega), Nat.add_assoc]

/-- The blocks of a frame: a cut ends the scan, whole ones are passed. -/
theorem scanBlocks_cut (last : ZstdBlock) (blocks : List ZstdBlock) (pre : List UInt8)
    (hcut : t <+: blocks.flatMap (·.bytes false) ++ last.bytes true ++ rest) :
    scanBlocks (pre ++ t) pre.length =
      .ok (if t.length < (blocks.flatMap (·.bytes false) ++ last.bytes true).length then none
        else some (pre.length + (blocks.flatMap (·.bytes false) ++ last.bytes true).length)) := by
  induction blocks generalizing pre t with
  | nil =>
    rw [List.flatMap_nil, List.nil_append] at hcut ⊢
    have hblock := scanBlock_cut pre last true hcut
    by_cases hshort : t.length < (last.bytes true).length
    · rw [if_pos hshort] at hblock ⊢
      rw [scanBlocks, hblock]
    · rw [if_neg hshort] at hblock ⊢
      rw [scanBlocks, hblock]
  | cons block blocks ih =>
    rw [List.flatMap_cons, List.append_assoc, List.append_assoc] at hcut
    rw [List.flatMap_cons, List.append_assoc, List.length_append]
    have hblock := scanBlock_cut pre block false hcut
    rcases cut_cases hcut with ⟨_, hshort⟩ | ⟨t', rfl, hrest⟩
    · rw [if_pos hshort] at hblock
      rw [scanBlocks, hblock, if_pos (by omega)]
    · have hlong : ¬(block.bytes false ++ t').length < (block.bytes false).length := by
        rw [List.length_append]
        omega
      rw [if_neg hlong] at hblock
      rw [← List.append_assoc] at hrest
      have htail := ih (pre ++ block.bytes false) hrest
      rw [List.append_assoc, List.length_append] at htail
      rw [scanBlocks, hblock]
      simp only [htail, List.length_append]
      by_cases hshort : t'.length <
          (blocks.flatMap (·.bytes false)).length + (last.bytes true).length
      · rw [if_pos hshort, if_pos (by omega)]
      · rw [if_neg hshort, if_neg (by omega), Nat.add_assoc]

/-! ## Frames -/

namespace ZstdFrame

variable (frame : ZstdFrame)

theorem descriptor_flags : ∀ (contentSizeFlag dictionaryFlag : Fin 4) (single check : Bool),
    let descriptor := 64 * contentSizeFlag + 32 * single.toNat + 4 * check.toNat + dictionaryFlag
    descriptor < 256 ∧ descriptor &&& 0x18 = 0 ∧ (descriptor &&& 0x04 ≠ 0 ↔ check = true) ∧
      remainingHeaderBytes descriptor = (if single then 0 else 1) +
        [0, 1, 2, 4].getD dictionaryFlag 0 +
        [if single then 1 else 0, 2, 4, 8].getD contentSizeFlag 0 := by
  decide

theorem descriptor_lt : frame.descriptor < 256 := by
  have h := descriptor_flags frame.contentSizeFlag frame.dictionaryFlag frame.singleSegment
    frame.checksumFlag
  exact h.1

theorem descriptor_reserved : frame.descriptor &&& 0x18 = 0 := by
  have h := descriptor_flags frame.contentSizeFlag frame.dictionaryFlag frame.singleSegment
    frame.checksumFlag
  exact h.2.1

theorem descriptor_checksum : frame.descriptor &&& 0x04 ≠ 0 ↔ frame.checksumFlag = true := by
  have h := descriptor_flags frame.contentSizeFlag frame.dictionaryFlag frame.singleSegment
    frame.checksumFlag
  exact h.2.2.1

theorem remainingHeaderBytes_descriptor :
    remainingHeaderBytes frame.descriptor = frame.fields.length := by
  have h := descriptor_flags frame.contentSizeFlag frame.dictionaryFlag frame.singleSegment
    frame.checksumFlag
  rw [frame.fields_length]
  exact h.2.2.2

theorem length_bytes : frame.bytes.length =
    5 + frame.fields.length + frame.blockBytes.length + frame.checksum.length := by
  simp only [bytes, List.length_append, length_writeUIntLE]

end ZstdFrame

theorem length_sub_length (t : List UInt8) : (pre ++ t).length - pre.length = t.length := by
  rw [List.length_append]
  omega

theorem scanFrameBody_cut (frame : ZstdFrame)
    (hcut : t <+: frame.fields ++ (frame.blockBytes ++ (frame.checksum ++ rest))) :
    scanFrameBody (pre ++ t) pre.length frame.descriptor =
      .ok (if t.length < frame.fields.length + frame.blockBytes.length + frame.checksum.length
        then none
        else some (pre.length +
          (frame.fields.length + frame.blockBytes.length + frame.checksum.length))) := by
  simp only [scanFrameBody, length_sub_length, frame.remainingHeaderBytes_descriptor]
  -- the rest of the header
  rcases cut_cases hcut with ⟨_, hshort⟩ | ⟨t₁, rfl, hcut₁⟩
  · rw [if_pos hshort, if_pos (by omega)]
  have hlong : ¬(frame.fields ++ t₁).length < frame.fields.length := by
    rw [List.length_append]
    omega
  rw [if_neg hlong]
  -- the blocks
  have hblocks := scanBlocks_cut frame.lastBlock frame.blocks (pre ++ frame.fields) hcut₁
  change _ = Except.ok (if t₁.length < frame.blockBytes.length then none
    else some ((pre ++ frame.fields).length + frame.blockBytes.length)) at hblocks
  rw [List.append_assoc, List.length_append] at hblocks
  rcases cut_cases hcut₁ with ⟨_, hshort⟩ | ⟨t₂, rfl, _⟩
  · have hlength : (frame.fields ++ t₁).length = frame.fields.length + t₁.length :=
      List.length_append
    rw [if_pos hshort] at hblocks
    rw [hblocks, if_pos (by omega)]
  have hlong₁ : ¬(frame.blockBytes ++ t₂).length < frame.blockBytes.length := by
    rw [List.length_append]
    omega
  rw [if_neg hlong₁] at hblocks
  rw [hblocks]
  -- the checksum
  have hrest : (pre ++ (frame.fields ++ (frame.blockBytes ++ t₂))).length -
      (pre.length + frame.fields.length + frame.blockBytes.length) = t₂.length := by
    simp only [List.length_append]
    omega
  have htotal : (frame.fields ++ (frame.blockBytes ++ t₂)).length =
      frame.fields.length + frame.blockBytes.length + t₂.length := by
    simp only [List.length_append]
    omega
  have hchecksum := frame.checksum_length
  by_cases hflag : frame.checksumFlag = true
  · rw [if_pos hflag] at hchecksum
    simp only [if_pos (frame.descriptor_checksum.mpr hflag), hrest, htotal, hchecksum]
    by_cases hshort : t₂.length < 4
    · rw [if_pos hshort, if_pos (by omega)]
    · rw [if_neg hshort, if_neg (by omega)]
      simp only [Nat.add_assoc]
  · rw [if_neg hflag] at hchecksum
    have hclear : ¬frame.descriptor &&& 0x04 ≠ 0 := fun h => hflag (frame.descriptor_checksum.mp h)
    simp only [if_neg hclear, htotal, hchecksum]
    rw [if_neg (by omega)]
    simp only [Nat.add_assoc, Nat.add_zero]

theorem scanFrame_cut (frame : ZstdFrame) (hcut : t <+: frame.bytes ++ rest) :
    scanFrame (pre ++ t) pre.length =
      .ok (if t.length < frame.bytes.length then none
        else some (pre.length + frame.bytes.length)) := by
  have hlength := frame.length_bytes
  simp only [ZstdFrame.bytes, List.append_assoc] at hcut
  -- the magic number
  rcases cut_cases hcut with ⟨_, hshort⟩ | ⟨t₁, rfl, hcut₁⟩
  · rw [length_writeUIntLE] at hshort
    rw [scanFrame, length_sub_length, if_pos hshort, if_pos (by omega)]
  have hlong : ¬(writeUIntLE ZSTD_MAGIC 4 ++ t₁).length < 4 := by
    rw [List.length_append, length_writeUIntLE]
    omega
  have hmagic : ¬readUIntLE (pre ++ (writeUIntLE ZSTD_MAGIC 4 ++ t₁)) pre.length 4 ≠ ZSTD_MAGIC := by
    rw [readUIntLE_writeUIntLE]
    decide
  -- the descriptor
  rcases cut_cases hcut₁ with ⟨_, hshort⟩ | ⟨t₂, rfl, hcut₂⟩
  · rw [length_writeUIntLE] at hshort
    have hend : pre.length + 4 = (pre ++ (writeUIntLE ZSTD_MAGIC 4 ++ t₁)).length := by
      rw [List.length_append, List.length_append, length_writeUIntLE]
      omega
    rw [scanFrame, length_sub_length, if_neg hlong, if_neg hmagic, if_pos hend, if_pos]
    rw [List.length_append, length_writeUIntLE]
    omega
  have htotal : (writeUIntLE ZSTD_MAGIC 4 ++ (writeUIntLE frame.descriptor 1 ++ t₂)).length =
      5 + t₂.length := by
    simp only [List.length_append, length_writeUIntLE]
    omega
  have hopen : ¬pre.length + 4 =
      (pre ++ (writeUIntLE ZSTD_MAGIC 4 ++ (writeUIntLE frame.descriptor 1 ++ t₂))).length := by
    rw [List.length_append, htotal]
    omega
  have hdescriptor : byteAt
      (pre ++ (writeUIntLE ZSTD_MAGIC 4 ++ (writeUIntLE frame.descriptor 1 ++ t₂)))
      (pre.length + 4) = frame.descriptor := by
    have hread := readUIntLE_writeUIntLE (pre ++ writeUIntLE ZSTD_MAGIC 4) t₂ frame.descriptor 1
    rw [List.append_assoc, List.length_append, length_writeUIntLE, Nat.pow_one,
      Nat.mod_eq_of_lt frame.descriptor_lt] at hread
    simpa [readUIntLE] using hread
  have hreserved : ¬frame.descriptor &&& 0x18 ≠ 0 := fun h => h frame.descriptor_reserved
  have hbody := scanFrameBody_cut
    (pre ++ (writeUIntLE ZSTD_MAGIC 4 ++ writeUIntLE frame.descriptor 1)) frame hcut₂
  have hoffset : (pre ++ (writeUIntLE ZSTD_MAGIC 4 ++ writeUIntLE frame.descriptor 1)).length =
      pre.length + 5 := by
    simp only [List.length_append, length_writeUIntLE]
  rw [hoffset, List.append_assoc, List.append_assoc] at hbody
  rw [scanFrame, length_sub_length, if_neg hlong, if_neg hmagic, if_neg hopen]
  simp only [hdescriptor, if_neg hreserved, hbody, htotal]
  by_cases hshort : t₂.length <
      frame.fields.length + frame.blockBytes.length + frame.checksum.length
  · have hcut : 5 + t₂.length < frame.bytes.length := by omega
    rw [if_pos hshort, if_pos hcut]
  · have hwhole : ¬5 + t₂.length < frame.bytes.length := by omega
    have hnext : pre.length + 5 +
        (frame.fields.length + frame.blockBytes.length + frame.checksum.length) =
        pre.length + frame.bytes.length := by omega
    rw [if_neg hshort, if_neg hwhole, hnext]

/-! ## The log -/

theorem ZstdFrame.length_pos (frame : ZstdFrame) : 0 < frame.bytes.length := by
  rw [frame.length_bytes]
  omega

variable {frames : List ZstdFrame} {range : ZstdFrameRange}

/-- Ranges are not empty, and begin where they were entered or later. -/
theorem bounds_of_mem_rangesFrom (h : range ∈ rangesFrom offset frames) :
    offset ≤ range.start ∧ range.start < range.stop := by
  induction frames generalizing offset with
  | nil => simp [rangesFrom] at h
  | cons frame frames ih =>
    have hpos := frame.length_pos
    rw [rangesFrom, List.mem_cons] at h
    cases h with
    | inl h =>
      subst h
      simp only
      omega
    | inr h =>
      have hrest := ih h
      omega

/-- The frames that end within a cut. -/
def completeIn (offset : ℕ) (frames : List ZstdFrame) (k : ℕ) : List ZstdFrameRange :=
  (rangesFrom offset frames).filter (·.stop ≤ k)

/-- The start of the frame that a cut goes through. -/
def tornIn (offset : ℕ) (frames : List ZstdFrame) (k : ℕ) : Option ℕ :=
  ((rangesFrom offset frames).find? fun range => range.start < k && k < range.stop).map (·.start)

variable {k : ℕ}

/-- A cut before the first frame or in it leaves no complete one. -/
theorem completeIn_eq_nil (h : k ≤ offset) : completeIn offset frames k = [] := by
  rw [completeIn, List.filter_eq_nil_iff]
  intro range hrange
  have hbounds := bounds_of_mem_rangesFrom hrange
  simp only [decide_eq_true_eq]
  omega

theorem tornIn_eq_none (h : k ≤ offset) : tornIn offset frames k = none := by
  rw [tornIn, Option.map_eq_none_iff, List.find?_eq_none]
  intro range hrange
  have hbounds := bounds_of_mem_rangesFrom hrange
  simp only [Bool.and_eq_true, decide_eq_true_eq]
  omega

theorem completeIn_cons (offset : ℕ) (frame : ZstdFrame) (frames : List ZstdFrame)
    (h : offset + frame.bytes.length ≤ k) :
    completeIn offset (frame :: frames) k =
      ⟨offset, offset + frame.bytes.length⟩ :: completeIn (offset + frame.bytes.length) frames k := by
  rw [completeIn, rangesFrom, List.filter_cons_of_pos (by simpa using h)]
  rfl

theorem tornIn_cons (offset : ℕ) (frame : ZstdFrame) (frames : List ZstdFrame)
    (h : offset + frame.bytes.length ≤ k) :
    tornIn offset (frame :: frames) k = tornIn (offset + frame.bytes.length) frames k := by
  have hwhole : (decide (offset < k) && decide (k < offset + frame.bytes.length)) = false := by
    rw [decide_eq_false (Nat.not_lt.mpr h), Bool.and_false]
  rw [tornIn, rangesFrom, List.find?_cons, hwhole]
  rfl

theorem cut_first {frame : ZstdFrame} (frames : List ZstdFrame) (hopen : offset < k)
    (h : k < offset + frame.bytes.length) :
    completeIn offset (frame :: frames) k = [] ∧ tornIn offset (frame :: frames) k = some offset := by
  constructor
  · rw [completeIn, rangesFrom, List.filter_cons_of_neg (by simpa using h)]
    exact completeIn_eq_nil h.le
  · have hhit : (decide (offset < k) && decide (k < offset + frame.bytes.length)) = true := by
      rw [decide_eq_true hopen, decide_eq_true h, Bool.and_true]
    rw [tornIn, rangesFrom, List.find?_cons, hhit]
    rfl

/-- The frames that a scan returns when it has found some before. -/
def limited (maxFrames : Option ℕ) (found complete : List ZstdFrameRange) : List ZstdFrameRange :=
  match maxFrames with
  | none => found ++ complete
  | some m => if found.length < m then (found ++ complete).take m else found ++ complete

/-- A scan that has found some frames succeeds with the complete ones of the rest up to its
limit; unless it stops at the limit it tells the torn frame. -/
structure ScansTo (maxFrames : Option ℕ) (found complete : List ZstdFrameRange)
    (torn : Option ℕ) (scan : ZstdFrameScan) : Prop where
  frames : scan.frames = limited maxFrames found complete
  tornStart : (∀ m, maxFrames = some m → found.length < m → found.length + complete.length < m) →
    scan.tornStart = torn

variable (maxFrames : Option ℕ)

theorem limited_nil (found : List ZstdFrameRange) : limited maxFrames found [] = found := by
  cases maxFrames with
  | none => simp [limited]
  | some m =>
    by_cases hm : found.length < m
    · simp [limited, hm, List.take_of_length_le hm.le]
    · simp [limited, hm]

theorem ScansTo.done (found : List ZstdFrameRange) (torn : Option ℕ) :
    ScansTo maxFrames found [] torn ⟨found, torn⟩ :=
  ⟨(limited_nil maxFrames found).symm, fun _ => rfl⟩

/-- The limit is reached with one more frame. -/
theorem ScansTo.full {maxFrames : Option ℕ} {found : List ZstdFrameRange}
    (h : maxFrames = some (found ++ [range]).length) (complete : List ZstdFrameRange)
    (torn : Option ℕ) :
    ScansTo maxFrames found (range :: complete) torn ⟨found ++ [range], none⟩ := by
  subst h
  rw [List.length_append, List.length_singleton]
  constructor
  · have hlt : found.length < found.length + 1 := Nat.lt_succ_self _
    have htake : (found ++ range :: complete).take (found.length + 1) = found ++ [range] := by
      rw [List.append_cons]
      exact List.take_left' (by simp)
    simp only [limited, if_pos hlt, htake]
  · intro hfew
    have hlt := hfew _ rfl (Nat.lt_succ_self _)
    rw [List.length_cons] at hlt
    omega

/-- One more frame within the limit. -/
theorem ScansTo.next {maxFrames : Option ℕ} {found complete : List ZstdFrameRange} {torn : Option ℕ}
    {scan : ZstdFrameScan} (hlimit : maxFrames ≠ some (found ++ [range]).length)
    (h : ScansTo maxFrames (found ++ [range]) complete torn scan) :
    ScansTo maxFrames found (range :: complete) torn scan := by
  have hsplit : found ++ [range] ++ complete = found ++ range :: complete := by simp
  have hlength : (found ++ [range]).length = found.length + 1 := by simp
  rw [hlength] at hlimit
  constructor
  · rw [h.frames]
    cases maxFrames with
    | none => simp only [limited, hsplit]
    | some m =>
      have hne : m ≠ found.length + 1 := fun hm => hlimit (congrArg some hm)
      simp only [limited, hsplit, hlength]
      by_cases hm : found.length < m
      · rw [if_pos hm, if_pos (by omega)]
      · rw [if_neg hm, if_neg (by omega)]
  · intro hfew
    apply h.tornStart
    intro m hm hlt
    have hmore := hfew m hm (by omega)
    rw [List.length_cons] at hmore
    omega

theorem scanFrames_cut (frames : List ZstdFrame) (pre : List UInt8) (hcut : t <+: stream frames)
    (found : List ZstdFrameRange) :
    ∃ scan, scanFrames (pre ++ t) maxFrames found pre.length = .ok scan ∧
      ScansTo maxFrames found (completeIn pre.length frames (pre.length + t.length))
        (tornIn pre.length frames (pre.length + t.length)) scan := by
  induction frames generalizing pre t found with
  | nil =>
    have hempty : t = [] := List.prefix_nil.mp hcut
    subst hempty
    have hend : ¬pre.length < (pre ++ []).length := by simp
    exact ⟨_, by rw [scanFrames, if_neg hend], ScansTo.done maxFrames found none⟩
  | cons frame frames ih =>
    have hstream : stream (frame :: frames) = frame.bytes ++ stream frames := rfl
    rw [hstream] at hcut
    have hframe := scanFrame_cut pre frame hcut
    by_cases hempty : t.length = 0
    · have hend : ¬pre.length < (pre ++ t).length := by
        rw [List.length_append]
        omega
      have hle : pre.length + t.length ≤ pre.length := by omega
      rw [completeIn_eq_nil hle, tornIn_eq_none hle]
      exact ⟨_, by rw [scanFrames, if_neg hend], ScansTo.done maxFrames found none⟩
    have hopen : pre.length < (pre ++ t).length := by
      rw [List.length_append]
      omega
    rcases cut_cases hcut with ⟨_, hshort⟩ | ⟨t', rfl, hrest⟩
    · -- the cut goes through this frame
      obtain ⟨hcomplete, htorn⟩ := cut_first frames
        (Nat.lt_add_of_pos_right (Nat.pos_of_ne_zero hempty))
        (Nat.add_lt_add_left hshort pre.length)
      rw [if_pos hshort] at hframe
      rw [hcomplete, htorn]
      exact ⟨_, by rw [scanFrames, if_pos hopen, hframe], ScansTo.done maxFrames found _⟩
    · have hlength : pre.length + (frame.bytes ++ t').length =
          pre.length + frame.bytes.length + t'.length := by
        rw [List.length_append, Nat.add_assoc]
      have hwhole : ¬(frame.bytes ++ t').length < frame.bytes.length := by
        rw [List.length_append]
        omega
      have hle := Nat.le_add_right (pre.length + frame.bytes.length) t'.length
      rw [if_neg hwhole] at hframe
      rw [hlength, completeIn_cons pre.length frame frames hle,
        tornIn_cons pre.length frame frames hle, scanFrames, if_pos hopen, hframe]
      by_cases hlimit : maxFrames = some (found ++
          [(⟨pre.length, pre.length + frame.bytes.length⟩ : ZstdFrameRange)]).length
      · exact ⟨_, if_pos hlimit, ScansTo.full hlimit _ _⟩
      · obtain ⟨scan, hscan, hto⟩ := ih (pre ++ frame.bytes) hrest
          (found ++ [⟨pre.length, pre.length + frame.bytes.length⟩])
        rw [List.append_assoc, List.length_append] at hscan
        rw [List.length_append] at hto
        exact ⟨scan, (if_neg hlimit).trans hscan, hto.next hlimit⟩

end Zstd

end TianmaCoder
