import VectorVault.Types

/-! CRC-64/ECMA-182, computed a byte at a time from a table. -/

namespace VectorVault.Crc64

def poly : UInt64 := 0x42F0E1EBA9EA3693

def shiftBit (crc : UInt64) : UInt64 :=
  if crc &&& 0x8000000000000000 ≠ 0 then (crc <<< 1) ^^^ poly else crc <<< 1

def tableEntry (byte : UInt8) : UInt64 :=
  (List.range 8).foldl (fun crc _ => shiftBit crc) (byte.toUInt64 <<< 56)

def table : List UInt64 := (List.range 256).map (fun byte => tableEntry (UInt8.ofNat byte))

def step (crc : UInt64) (byte : UInt8) : UInt64 :=
  (crc <<< 8) ^^^ table.getD ((crc >>> 56).toUInt8 ^^^ byte).toNat 0

def crc64Ecma (bytes : Bytes) (crc : UInt64) : UInt64 := bytes.foldl step crc

end VectorVault.Crc64
