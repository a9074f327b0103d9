import AArch64.Power
import AArch64.Decode.Word

/-! The upper levels of decoding. Each level gathers a few bits of the word, the most significant first, into
the key of a table with one entry per key. -/
namespace AArch64

structure KeyTable where
  name : String
  keyBits : List Nat

namespace KeyTable

def key (t : KeyTable) (w : InstructionWord) : Nat :=
  t.keyBits.foldl (fun k i => 2 * k + (w.bit i).toNat) 0

def entries (t : KeyTable) : Nat := 2 ^ t.keyBits.length

def topLevel : KeyTable where
  name := "top level"
  keyBits := [28, 27, 26, 25]

def loadStore : KeyTable where
  name := "loads and stores"
  keyBits := [29, 28, 26]

def immediate : KeyTable where
  name := "data processing (immediate)"
  keyBits := [25, 24, 23]

def register : KeyTable where
  name := "data processing (register)"
  keyBits := [28, 24, 21]

def registerMisc : KeyTable where
  name := "data processing (register, misc)"
  keyBits := [23, 22]

def control : KeyTable where
  name := "branch, exception, system"
  keyBits := [31, 30, 29]

def simdAndFloat : KeyTable where
  name := "SIMD and floating point"
  keyBits := [28, 30, 24]

def all : List KeyTable :=
  [topLevel, loadStore, immediate, register, registerMisc, control, simdAndFloat]

end KeyTable
end AArch64
