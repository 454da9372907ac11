import Mutagenesis.Disk.Folder
import Mutagenesis.Numeral
import Mutagenesis.Text.Cut

/-!
# Octets

Shells and programs work on bytes.
-/

namespace Mutagenesis.Shell

abbrev Octets := List Char

instance : Coe String Octets := ⟨String.toList⟩

instance : LawfulBEq Octets := List.instLawfulBEq

instance : Hashable Octets where
  hash cs := cs.foldl (fun h c => mixHash h c.toNat.toUInt64) 7

namespace Octets

def ofBytes (bs : List UInt8) : Octets :=
  bs.map fun b => Char.ofNat b.toNat

def toBytes (cs : Octets) : List UInt8 :=
  cs.map fun c => c.toNat.toUInt8

def ofText (s : String) : Octets :=
  ofBytes (Text.bytesOf s.toList)

def toText (cs : Octets) : String :=
  String.ofList (Text.ofBytesLossy (toBytes cs))

def ofContent (content : Content) : Octets :=
  ofBytes content.toBytes

def toContent (cs : Octets) : Content :=
  Content.ofBytes (toBytes cs)

def sizeOf : Content → Nat
  | .text s => s.utf8ByteSize
  | .bytes bs => bs.length

def appendTo (content : Content) (cs : Octets) : Content :=
  match content, toContent cs with
  | .text s, .text t => .text (s ++ t)
  | _, _ => toContent (ofContent content ++ cs)

def ofNat (n : Nat) : Octets :=
  n.repr.toList

def ofInt (n : Int) : Octets :=
  (if n < 0 then ['-'] else []) ++ ofNat n.natAbs

def nat? (cs : Octets) : Option Nat :=
  if cs.isEmpty ∨ !cs.all Char.isDigit then none
  else some (cs.foldl (fun n c => n * 10 + (c.toNat - '0'.toNat)) 0)

def linesBy (ending : Char) (cs : Octets) : List Octets :=
  let pieces := Text.pieces ending cs
  if pieces.getLast? = some [] then pieces.dropLast else pieces

def lines (cs : Octets) : List Octets :=
  linesBy '\n' cs

def ofLines (ls : List Octets) : Octets :=
  ls.flatMap (· ++ ['\n'])

def le : Octets → Octets → Bool
  | [], _ => true
  | _ :: _, [] => false
  | a :: as, b :: bs => a < b || (a == b && le as bs)

end Octets

def isNameChar (c : Char) : Bool :=
  c.isAlphanum || c == '_'

def isNameStart (c : Char) : Bool :=
  c.isAlpha || c == '_'

def isName (cs : Octets) : Bool :=
  match cs with
  | c :: rest => isNameStart c && rest.all isNameChar
  | [] => false

end Mutagenesis.Shell
