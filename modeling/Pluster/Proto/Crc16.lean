import Pluster.Lib.Crc
import Pluster.Proto.Bytes

/-!
# Hash slots

`CRC16` and `HashSlot` of `pkg/proto/crc16.go`, compared with the hash that the
Redis Cluster specification prescribes: CRC-16/XMODEM modulo the number of slots.
The source computes the remainder from a table of 256 constants, and the
constants at the indices 64 to 119 are not those of the polynomial.
-/

namespace Pluster.Proto

set_option maxRecDepth 2000 in
/-- The lookup table of the source. -/
def crc16tab : Vector UInt16 256 :=
  #v[0x0000, 0x1021, 0x2042, 0x3063, 0x4084, 0x50a5, 0x60c6, 0x70e7,
    0x8108, 0x9129, 0xa14a, 0xb16b, 0xc18c, 0xd1ad, 0xe1ce, 0xf1ef,
    0x1231, 0x0210, 0x3273, 0x2252, 0x52b5, 0x4294, 0x72f7, 0x62d6,
    0x9339, 0x8318, 0xb37b, 0xa35a, 0xd3bd, 0xc39c, 0xf3ff, 0xe3de,
    0x2462, 0x3443, 0x0420, 0x1401, 0x64e6, 0x74c7, 0x44a4, 0x5485,
    0xa56a, 0xb54b, 0x8528, 0x9509, 0xe5ee, 0xf5cf, 0xc5ac, 0xd58d,
    0x3653, 0x2672, 0x1611, 0x0630, 0x76d7, 0x66f6, 0x5695, 0x46b4,
    0xb75b, 0xa77a, 0x9719, 0x8738, 0xf7df, 0xe7fe, 0xd79d, 0xc7bc,
    0x4864, 0x5845, 0x6826, 0x7807, 0x08e0, 0x18c1, 0x28a2, 0x38c3,
    0xc92c, 0xd90d, 0xe96e, 0xf94f, 0x89a8, 0x99c9, 0xa9aa, 0xb98b,
    0x5a75, 0x4a54, 0x7a37, 0x6a16, 0x1af1, 0x0ad0, 0x3ab3, 0x2a92,
    0xdb6d, 0xcb4c, 0xfb2f, 0xeb0e, 0x9be9, 0x8bc8, 0xbbab, 0xab8a,
    0x6c66, 0x7c47, 0x4c24, 0x5c05, 0x2ce2, 0x3cc3, 0x0ca0, 0x1c81,
    0xed6e, 0xfd4f, 0xcd2c, 0xdd0d, 0xad6a, 0xbd4b, 0x8d28, 0x9d09,
    0x7ef7, 0x6ed6, 0x5eb5, 0x4e94, 0x3e73, 0x2e52, 0x1e31, 0x0e10,
    0xff9f, 0xefbe, 0xdfdd, 0xcffc, 0xbf1b, 0xaf3a, 0x9f59, 0x8f78,
    0x9188, 0x81a9, 0xb1ca, 0xa1eb, 0xd10c, 0xc12d, 0xf14e, 0xe16f,
    0x1080, 0x00a1, 0x30c2, 0x20e3, 0x5004, 0x4025, 0x7046, 0x6067,
    0x83b9, 0x9398, 0xa3fb, 0xb3da, 0xc33d, 0xd31c, 0xe37f, 0xf35e,
    0x02b1, 0x1290, 0x22f3, 0x32d2, 0x4235, 0x5214, 0x6277, 0x7256,
    0xb5ea, 0xa5cb, 0x95a8, 0x8589, 0xf56e, 0xe54f, 0xd52c, 0xc50d,
    0x34e2, 0x24c3, 0x14a0, 0x0481, 0x7466, 0x6447, 0x5424, 0x4405,
    0xa7db, 0xb7fa, 0x8799, 0x97b8, 0xe75f, 0xf77e, 0xc71d, 0xd73c,
    0x26d3, 0x36f2, 0x0691, 0x16b0, 0x6657, 0x7676, 0x4615, 0x5634,
    0xd94c, 0xc96d, 0xf90e, 0xe92f, 0x99c8, 0x89e9, 0xb98a, 0xa9ab,
    0x5844, 0x4865, 0x7806, 0x6827, 0x18c0, 0x08e1, 0x3882, 0x28a3,
    0xcb7d, 0xdb5c, 0xeb3f, 0xfb1e, 0x8bf9, 0x9bd8, 0xabbb, 0xbb9a,
    0x4a75, 0x5a54, 0x6a37, 0x7a16, 0x0af1, 0x1ad0, 0x2ab3, 0x3a92,
    0xfd2e, 0xed0f, 0xdd6c, 0xcd4d, 0xbdaa, 0xad8b, 0x9de8, 0x8dc9,
    0x7c26, 0x6c07, 0x5c64, 0x4c45, 0x3ca2, 0x2c83, 0x1ce0, 0x0cc1,
    0xef1f, 0xff3e, 0xcf5d, 0xdf7c, 0xaf9b, 0xbfba, 0x8fd9, 0x9ff8,
    0x6e17, 0x7e36, 0x4e55, 0x5e74, 0x2e93, 0x3eb2, 0x0ed1, 0x1ef0]

/-- The number of hash slots. -/
def clusterSlots : ℕ := 16384

/-- The table entry a byte selects. -/
def crc16Entry (i : UInt8) : UInt16 := crc16tab.get ⟨i.toNat, i.toNat_lt⟩

/-- One iteration of the loop of `CRC16`. -/
def crc16Step (crc : UInt16) (b : UInt8) : UInt16 :=
  (crc <<< 8) ^^^ crc16Entry ((crc >>> 8).toUInt8 ^^^ b)

/-- `CRC16`. -/
def crc16 (buf : Bytes) : UInt16 := buf.foldl crc16Step 0

/-- The loop of `hashTag` at index `i`, with the position `s` of the last `{`
that is still open. -/
def hashTagLoop (key : Bytes) : ℕ → Option ℕ → Bytes → Bytes
  | _, _, [] => []
  | i, s, b :: rest =>
    if b = 0x7b then hashTagLoop key (i + 1) (some i) rest
    else
      match s with
      | none => hashTagLoop key (i + 1) none rest
      | some start =>
        if b = 0x7d then
          if start + 1 < i then (key.take i).drop (start + 1)
          else hashTagLoop key (i + 1) none rest
        else hashTagLoop key (i + 1) (some start) rest

/-- `hashTag`; the empty list stands for `nil`. -/
def hashTag (key : Bytes) : Bytes := hashTagLoop key 0 none key

/-- `HashSlot`. -/
def hashSlot (key : Bytes) : ℕ :=
  let s := hashTag key
  if 0 < s.length then (crc16 s).toNat % clusterSlots else (crc16 key).toNat % clusterSlots

/-- The polynomial of CRC-16/XMODEM, `x^16 + x^12 + x^5 + 1`. -/
def xmodemPoly : BitVec 16 := 0x1021#16

/-- The bitwise CRC-16/XMODEM: initial value zero, no reflection, no final xor. -/
def crc16Xmodem (buf : Bytes) : UInt16 :=
  ⟨Crc.remainder xmodemPoly (buf.map UInt8.toBitVec)⟩

/-- The slot the Redis Cluster specification assigns to a key without braces. -/
def clusterKeySlot (key : Bytes) : ℕ := (crc16Xmodem key).toNat % clusterSlots

/-- The indices at which the table of the source is wrong. -/
def WrongEntry (i : UInt8) : Prop := 64 ≤ i ∧ i ≤ 119

instance (i : UInt8) : Decidable (WrongEntry i) := inferInstanceAs (Decidable (_ ∧ _))

/-- The entry of the source as a bit vector. -/
def tableBits (i : BitVec 8) : BitVec 16 := (crc16Entry ⟨i⟩).toBitVec

/-- The error the wrong entries leave in the register after a byte string, from
the errors of the entries alone: each one looked up is advanced over the bytes
that follow it, and they add up by exclusive or. -/
def errorRegister (buf : Bytes) : UInt16 :=
  ⟨Crc.errorAfter xmodemPoly tableBits 0 0 (buf.map UInt8.toBitVec)⟩

/-- The table index of the byte `b` after the bytes `p`, for the correct register. -/
def lookupIndex (p : Bytes) (b : UInt8) : UInt8 := (crc16Xmodem p >>> 8).toUInt8 ^^^ b

/-- No byte of the string looks up a wrong entry. -/
def AvoidsWrongEntries (buf : Bytes) : Prop :=
  ∀ p b, p ++ [b] <+: buf → ¬ WrongEntry (lookupIndex p b)

/-- A key in which the hash-tag rule plays no part. -/
def NoBraces (key : Bytes) : Prop := 0x7b ∉ key ∧ 0x7d ∉ key

instance (key : Bytes) : Decidable (NoBraces key) := inferInstanceAs (Decidable (_ ∧ _))

/-- An entry of the source is off exactly at the wrong indices. -/
theorem tableError_eq_zero_iff (i : BitVec 8) :
    Crc.tableError xmodemPoly tableBits i = 0#16 ↔ ¬ WrongEntry ⟨i⟩ := by
  revert i
  decide +kernel

private theorem toBitVec_crc16Step (crc : UInt16) (b : UInt8) :
    (crc16Step crc b).toBitVec = Crc.tableByte tableBits crc.toBitVec b.toBitVec := rfl

private theorem toBitVec_foldl_crc16Step (buf : Bytes) (crc : UInt16) :
    (buf.foldl crc16Step crc).toBitVec =
      (buf.map UInt8.toBitVec).foldl (Crc.tableByte tableBits) crc.toBitVec := by
  induction buf generalizing crc with
  | nil => rfl
  | cons b buf ih => rw [List.foldl_cons, ih, List.map_cons, List.foldl_cons, toBitVec_crc16Step]

/-- The table-driven hash is the bitwise one off by the error register. -/
theorem crc16_eq_xor (buf : Bytes) : crc16 buf = crc16Xmodem buf ^^^ errorRegister buf := by
  apply UInt16.toBitVec_inj.mp
  rw [UInt16.toBitVec_xor, crc16, toBitVec_foldl_crc16Step]
  have h := Crc.foldl_tableByte xmodemPoly (by decide) tableBits (buf.map UInt8.toBitVec) 0#16 0#16
  rwa [BitVec.xor_zero] at h

theorem crc16_append_singleton (p : Bytes) (b : UInt8) :
    crc16 (p ++ [b]) = crc16Step (crc16 p) b := by
  simp [crc16, List.foldl_append]

theorem toBitVec_crc16Xmodem_append_singleton (p : Bytes) (b : UInt8) :
    (crc16Xmodem (p ++ [b])).toBitVec =
      Crc.pushByte xmodemPoly (crc16Xmodem p).toBitVec b.toBitVec := by
  simp [crc16Xmodem, Crc.remainder, List.foldl_append]

/-- From a correct register, one lookup keeps the register correct exactly when
it avoids the wrong entries. -/
theorem crc16_append_singleton_eq_iff {p : Bytes} (b : UInt8) (hp : crc16 p = crc16Xmodem p) :
    crc16 (p ++ [b]) = crc16Xmodem (p ++ [b]) ↔ ¬ WrongEntry (lookupIndex p b) := by
  have hstep := Crc.tableByte_xor xmodemPoly (by decide) tableBits
    (crc16Xmodem p).toBitVec 0#16 b.toBitVec
  have hzero : Crc.shifts xmodemPoly 8 0#16 = 0#16 := by decide
  rw [BitVec.xor_zero, hzero, BitVec.zero_xor] at hstep
  rw [← UInt16.toBitVec_inj, crc16_append_singleton, hp, toBitVec_crc16Step, hstep,
    toBitVec_crc16Xmodem_append_singleton, Crc.xor_eq_self_iff, tableError_eq_zero_iff]
  rfl

private theorem xor_mod_slots (x e : UInt16) :
    (x ^^^ e).toNat % clusterSlots = x.toNat % clusterSlots ↔ e.toNat % clusterSlots = 0 := by
  have hslots : clusterSlots = 2 ^ 14 := rfl
  rw [UInt16.toNat_xor, hslots, Nat.xor_mod_two_pow]
  constructor
  · intro h
    have := congrArg (x.toNat % 2 ^ 14 ^^^ ·) h
    simpa [← Nat.xor_assoc] using this
  intro h
  rw [h, Nat.xor_zero]

theorem hashTagLoop_eq_nil {key rest : Bytes} (i : ℕ) (hrest : 0x7b ∉ rest) :
    hashTagLoop key i none rest = [] := by
  induction rest generalizing i with
  | nil => rfl
  | cons b rest ih =>
    have hb : ¬ b = 0x7b := fun h => hrest (by simp [h])
    rw [hashTagLoop, if_neg hb]
    exact ih (i + 1) (fun h => hrest (by simp [h]))

/-- A key without braces hashes whole. -/
theorem hashSlot_of_noBraces {key : Bytes} (hkey : NoBraces key) :
    hashSlot key = (crc16 key).toNat % clusterSlots := by
  rw [hashSlot, hashTag, hashTagLoop_eq_nil 0 hkey.1]
  rfl

/-- On every prefix of a string the hash is right exactly when no byte of the
string looks up a wrong entry. -/
theorem crc16_prefixes_eq_iff (buf : Bytes) :
    (∀ p, p <+: buf → crc16 p = crc16Xmodem p) ↔ AvoidsWrongEntries buf := by
  constructor
  · intro h p b hpb
    have hp := h p ((List.prefix_append p [b]).trans hpb)
    exact (crc16_append_singleton_eq_iff b hp).mp (h _ hpb)
  intro h p hp
  induction p using List.reverseRecOn with
  | nil => rfl
  | append_singleton p b ih =>
    have hprev := ih ((List.prefix_append p [b]).trans hp)
    exact (crc16_append_singleton_eq_iff b hprev).mpr (h p b hp)

/-- `CRC16` is the hash of Redis Cluster exactly on the strings on which the
errors of the wrong table entries cancel. No error arises on a string that avoids
the wrong entries, and these are the strings all of whose prefixes hash correctly. -/
theorem crc16_eq_crc16Xmodem_iff (buf : Bytes) :
    ((crc16 buf = crc16Xmodem buf ∧ (NoBraces buf → hashSlot buf = clusterKeySlot buf)) ↔
      errorRegister buf = 0) ∧
    (NoBraces buf → (hashSlot buf = clusterKeySlot buf ↔
      (errorRegister buf).toNat % clusterSlots = 0)) ∧
    (AvoidsWrongEntries buf → errorRegister buf = 0) ∧
    ((∀ p, p <+: buf → crc16 p = crc16Xmodem p) ↔ AvoidsWrongEntries buf) := by
  have hcrc : crc16 buf = crc16Xmodem buf ↔ errorRegister buf = 0 := by
    rw [crc16_eq_xor, ← UInt16.toBitVec_inj, UInt16.toBitVec_xor, Crc.xor_eq_self_iff,
      ← UInt16.toBitVec_inj]
    rfl
  have hslot : NoBraces buf → (hashSlot buf = clusterKeySlot buf ↔
      (errorRegister buf).toNat % clusterSlots = 0) := by
    intro hbraces
    rw [hashSlot_of_noBraces hbraces, clusterKeySlot, crc16_eq_xor, xor_mod_slots]
  refine ⟨⟨fun h => hcrc.mp h.1, fun h => ⟨hcrc.mpr h, fun hb => ?_⟩⟩, hslot, ?_,
    crc16_prefixes_eq_iff buf⟩
  · rw [hslot hb, h]
    rfl
  intro havoid
  exact hcrc.mp ((crc16_prefixes_eq_iff buf).mpr havoid buf (List.prefix_refl buf))

/-- The key `a` looks up entry 97: the table gives `0x7c47` where the remainder
is `0x7c87`, and the key is sent to slot 15431 instead of 15495. -/
theorem crc16_a_ne_crc16Xmodem :
    crc16 (bytes "a") ≠ crc16Xmodem (bytes "a") ∧ NoBraces (bytes "a") ∧
      hashSlot (bytes "a") = 15431 ∧ clusterKeySlot (bytes "a") = 15495 := by
  refine ⟨by decide +kernel, by decide, by decide +kernel, by decide +kernel⟩

end Pluster.Proto
