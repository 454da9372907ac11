import Mutagenesis.Shell.Digest
import Mutagenesis.Shell.Program.Lines

/-!
# Programs that compute check sums

Programs that show hashes of files.
-/

namespace Mutagenesis.Shell.Checksum

open Work

def hashSum (hash : List UInt8 → List UInt8) : Program := fun call => do
  let (_, operands) ← OptionTable.read { flags := ['b', 't'] } call 1
  forInputs call operands fun path content =>
    putLine (Digest.hex (hash (Octets.toBytes content)) ++ "  " ++ path)

def cksum : Program := fun call => do
  let (_, operands) ← OptionTable.read { flags := [] } call 1
  forInputs call operands fun path content => do
    let name := if operands.isEmpty then [] else ' ' :: path
    putLine (Octets.ofNat (Digest.crc (Octets.toBytes content)) ++
      ' ' :: Octets.ofNat content.length ++ name)

end Mutagenesis.Shell.Checksum
