import Mathlib.Data.List.Basic

/-!
The checksums of the firmware: CRC-32 over a configuration record and CRC16 over a
Modbus RTU frame (`util/io_crc.c`), and the nibble form of CRC16-CCITT over a
firmware image (`fw/fw_upg.c`).
-/
namespace IoEdgeHub.Crc

/-- One of the eight shifts of the CRC-32 register. -/
def crc32_bit (crc : UInt32) : UInt32 := if crc &&& 1 ≠ 0 then (crc >>> 1) ^^^ 0xEDB88320 else crc >>> 1

def crc32_byte (crc : UInt32) (b : UInt8) : UInt32 := Nat.repeat crc32_bit 8 (crc ^^^ b.toUInt32)

def crc32_ieee (data : List UInt8) : UInt32 := data.foldl crc32_byte 0xFFFFFFFF ^^^ 0xFFFFFFFF

/-- One of the eight shifts of the Modbus register. -/
def crc16_modbus_bit (crc : UInt16) : UInt16 := if crc &&& 1 ≠ 0 then (crc >>> 1) ^^^ 0xA001 else crc >>> 1

def crc16_modbus_byte (crc : UInt16) (b : UInt8) : UInt16 := Nat.repeat crc16_modbus_bit 8 (crc ^^^ b.toUInt16)

def crc16_modbus (data : List UInt8) : UInt16 := data.foldl crc16_modbus_byte 0xFFFF

def crc16_ccitt_byte (seed : UInt16) (b : UInt8) : UInt16 :=
  let e : UInt8 := seed.toUInt8 ^^^ b
  let f : UInt8 := e ^^^ (e <<< 4)
  (seed >>> 8) ^^^ (f.toUInt16 <<< 8) ^^^ (f.toUInt16 <<< 3) ^^^ (f >>> 4).toUInt16

def crc16_ccitt (seed : UInt16) (src : List UInt8) : UInt16 := src.foldl crc16_ccitt_byte seed

/-- Checksumming in pieces is checksumming the whole. -/
theorem crc16_ccitt_append (seed : UInt16) (first second : List UInt8) :
    crc16_ccitt seed (first ++ second) = crc16_ccitt (crc16_ccitt seed first) second :=
  List.foldl_append

end IoEdgeHub.Crc
