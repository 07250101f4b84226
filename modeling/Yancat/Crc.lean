import Mathlib.Data.List.Basic
import Mathlib.Tactic

/-!
# The table-driven checksum register

The generator table is the one computed at program start. The register is
advanced one byte at a time, and the checksum reported as `cksum` appends the
octets of the byte count.
-/

namespace Yancat.Crc

/-- One byte of the stream. -/
abbrev Byte := BitVec 8

/-- The checksum register, of the configured width of 32 bits. -/
abbrev CrcInt := BitVec 32

/-- The generator polynomial without its leading term. -/
def poly : CrcInt := 0x04C11DB7

/-- One division step: shift out the top bit and subtract the generator when
the bit was set. -/
def crcShift (c : CrcInt) : CrcInt :=
  if c.msb=true then (c<<<1)^^^poly else c<<<1

/-- Eight division steps of one table row. -/
def crcRow (c : CrcInt) : ℕ → CrcInt
  | 0 => c
  | j+1 => crcRow (crcShift c) j

/-- The table computed by `crc_init`. -/
def ctab : List CrcInt :=
  (List.range 256).map fun i => crcRow (BitVec.ofNat 32 i<<<24) 8

/-- One byte of `crc_calc`. -/
def crcByte (c : CrcInt) (d : Byte) : CrcInt :=
  (c<<<8)^^^ctab.getD (((c>>>24)^^^d.setWidth 32)&&&0xFF).toNat 0

/-- Advance the register over a byte sequence. -/
def crcCalc (c : CrcInt) (d : List Byte) : CrcInt := d.foldl crcByte c

/-- The octets of a count, least significant first and none for zero. The
scratch array of `crc_cksum` has eight cells, one for each round. -/
def cksumOctets : ℕ → BitVec 64 → List Byte
  | 0,_ => []
  | n+1,b => if b=0 then [] else (b&&&0xFF).setWidth 8::cksumOctets n (b>>>8)

/-- Append the octets of the byte count. -/
def crcCksum (c : CrcInt) (b : BitVec 64) : CrcInt := crcCalc c (cksumOctets 8 b)

/-- The initial register. -/
def crcBeg : CrcInt := 0

/-- The final complement. -/
def crcEnd (c : CrcInt) : CrcInt := (c^^^BitVec.allOnes 32)&&&BitVec.allOnes 32

/-- The two numbers that `rep_crc` prints: crc and cksum. -/
def repCrc (c : CrcInt) (cnt : BitVec 64) : CrcInt×CrcInt :=
  (crcEnd c,crcEnd (crcCksum c cnt))

/-- The register may be advanced piecewise, in whatever chunks the bytes
arrive. -/
theorem crcCalc_append (c : CrcInt) (xs ys : List Byte) :
    crcCalc c (xs++ys)=crcCalc (crcCalc c xs) ys := List.foldl_append

end Yancat.Crc
