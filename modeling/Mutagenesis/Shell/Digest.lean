import Mutagenesis.Shell.Octets

/-!
# Digests

Check sums and hashes of bytes.
-/

namespace Mutagenesis.Shell.Digest

def root (power target : Nat) : (bits : Nat) → (found : Nat) → Nat
  | 0, found => found
  | bits + 1, found =>
    let next := found + Nat.pow 2 bits
    root power target bits (if Nat.pow next power ≤ target then next else found)

def rootBits (power bits n : Nat) : Nat :=
  root power (n * Nat.pow 2 (power * bits)) (bits + 5) 0 % Nat.pow 2 bits

def isPrime (n : Nat) : Bool :=
  2 ≤ n && (List.range n).all fun d => d < 2 || n % d ≠ 0

def primes : List Nat :=
  (List.range 312).filter isPrime

def blocks {α : Type} (size : Nat) : (steps : Nat) → List α → List (List α)
  | 0, _ => []
  | _ + 1, [] => []
  | steps + 1, l => l.take size :: blocks size steps (l.drop size)

def bytesOf (count n : Nat) : List UInt8 :=
  (List.range count).map fun i => (n / Nat.pow 256 i).toUInt8

def numberOf (bs : List UInt8) : Nat :=
  bs.foldr (fun b n => n * 256 + b.toNat) 0

/-- The words of the blocks that a hash is computed from: the bytes are filled up, and their number
comes last. -/
def wordBlocks (high : Bool) (bs : List UInt8) : List (List Nat) :=
  let zeros := (64 - (bs.length + 9) % 64) % 64
  let length := bytesOf 8 (8 * bs.length)
  let all := bs ++ 128 :: List.replicate zeros 0 ++ if high then length.reverse else length
  (blocks 64 (all.length + 1) all).map fun block =>
    (blocks 4 17 block).map fun w => numberOf (if high then w.reverse else w)

def turnLeft (w : UInt32) (n : UInt32) : UInt32 :=
  (w <<< n) ||| (w >>> (32 - n))

def turnRight (w : UInt32) (n : UInt32) : UInt32 :=
  (w >>> n) ||| (w <<< (32 - n))

/-- Four words of a state. -/
structure State4 where
  a : UInt32
  b : UInt32
  c : UInt32
  d : UInt32

def sines : List UInt32 :=
  (List.range 64).map fun i => ((i + 1).toFloat.sin.abs * 4294967296).toUInt32

def md5Turns : List (List UInt32) :=
  [[7, 12, 17, 22], [5, 9, 14, 20], [4, 11, 16, 23], [6, 10, 15, 21]]

def md5Round (words : Array UInt32) (s : State4) (i : Nat) (k : UInt32) : State4 :=
  let (mixed, index) := match i / 16 with
    | 0 => ((s.b &&& s.c) ||| (~~~s.b &&& s.d), i)
    | 1 => ((s.d &&& s.b) ||| (~~~s.d &&& s.c), 5 * i + 1)
    | 2 => (s.b ^^^ s.c ^^^ s.d, 3 * i + 5)
    | _ => (s.c ^^^ (s.b ||| ~~~s.d), 7 * i)
  let turns := ((md5Turns[i / 16]?.getD [])[i % 4]?).getD 0
  let sum := s.a + mixed + k + (words[index % 16]?).getD 0
  { a := s.d, b := s.b + turnLeft sum turns, c := s.b, d := s.c }

def md5 (bs : List UInt8) : List UInt8 :=
  let start : State4 := ⟨0x67452301, 0xefcdab89, 0x98badcfe, 0x10325476⟩
  let final := (wordBlocks false bs).foldl (fun s block =>
    let words := (block.map Nat.toUInt32).toArray
    let t := sines.zipIdx.foldl (fun t (k, i) => md5Round words t i k) s
    ⟨s.a + t.a, s.b + t.b, s.c + t.c, s.d + t.d⟩) start
  [final.a, final.b, final.c, final.d].flatMap fun w => bytesOf 4 w.toNat

def sha256Round (s : List UInt32) (k w : UInt32) : List UInt32 :=
  match s with
  | [a, b, c, d, e, f, g, h] =>
    let first := h + (turnRight e 6 ^^^ turnRight e 11 ^^^ turnRight e 25) +
      ((e &&& f) ^^^ (~~~e &&& g)) + k + w
    let second := (turnRight a 2 ^^^ turnRight a 13 ^^^ turnRight a 22) +
      ((a &&& b) ^^^ (a &&& c) ^^^ (b &&& c))
    [first + second, a, b, c, d + first, e, f, g]
  | s => s

def schedule : (count : Nat) → Array UInt32 → Array UInt32
  | 0, ws => ws
  | count + 1, ws =>
    let back (n : Nat) : UInt32 := (ws[ws.size - n]?).getD 0
    let mixed := turnRight (back 2) 17 ^^^ turnRight (back 2) 19 ^^^ (back 2 >>> 10)
    let other := turnRight (back 15) 7 ^^^ turnRight (back 15) 18 ^^^ (back 15 >>> 3)
    schedule count (ws.push (mixed + back 7 + other + back 16))

def sha256 (bs : List UInt8) : List UInt8 :=
  let constants := primes.map fun p => (rootBits 3 32 p).toUInt32
  let start := (primes.take 8).map fun p => (rootBits 2 32 p).toUInt32
  let final := (wordBlocks true bs).foldl (fun s block =>
    let words := schedule 48 (block.map Nat.toUInt32).toArray
    let t := (words.toList.zip constants).foldl (fun t (w, k) => sha256Round t k w) s
    List.zipWith (· + ·) s t) start
  final.flatMap fun w => (bytesOf 4 w.toNat).reverse

def crcBit (crc : UInt32) : UInt32 :=
  if crc &&& 0x80000000 ≠ 0 then (crc <<< 1) ^^^ 0x04c11db7 else crc <<< 1

def crcByte (crc : UInt32) (b : UInt8) : UInt32 :=
  (List.range 8).foldl (fun crc _ => crcBit crc) (crc ^^^ (b.toUInt32 <<< 24))

def crc (bs : List UInt8) : Nat :=
  let length := (bytesOf 8 bs.length).reverse.dropWhile (· = 0)
  (~~~((bs ++ length.reverse).foldl crcByte 0)).toNat

def hex (bs : List UInt8) : Octets :=
  bs.flatMap fun b =>
    [Nat.digitChar (b.toNat / 16), Nat.digitChar (b.toNat % 16)]

end Mutagenesis.Shell.Digest
