import Crosswalk.Text.Digits
import Crosswalk.Text.Utf8

namespace Crosswalk.Digest

abbrev Word := UInt32

abbrev Chain := Array Word

def initialChain : Chain :=
  #[0x6A09E667, 0xBB67AE85, 0x3C6EF372, 0xA54FF53A, 0x510E527F, 0x9B05688C, 0x1F83D9AB, 0x5BE0CD19]

def messageOrder : Array Nat := #[2, 6, 3, 10, 7, 0, 4, 13, 1, 11, 12, 5, 9, 14, 15, 8]

namespace Flag
def chunkStart : Word := 1
def chunkEnd : Word := 2
def parent : Word := 4
def root : Word := 8
end Flag

def rotateRight (w : Word) (n : Word) : Word := (w >>> n) ||| (w <<< (32 - n))

def mix (s : Array Word) (a b c d : Nat) (x y : Word) : Array Word :=
  let va := s.getD a 0 + s.getD b 0 + x
  let vd := rotateRight (s.getD d 0 ^^^ va) 16
  let vc := s.getD c 0 + vd
  let vb := rotateRight (s.getD b 0 ^^^ vc) 12
  let va := va + vb + y
  let vd := rotateRight (vd ^^^ va) 8
  let vc := vc + vd
  let vb := rotateRight (vb ^^^ vc) 7
  (((s.setIfInBounds a va).setIfInBounds b vb).setIfInBounds c vc).setIfInBounds d vd

def round (s m : Array Word) : Array Word :=
  let w (i : Nat) := m.getD i 0
  let s := mix s 0 4 8 12 (w 0) (w 1)
  let s := mix s 1 5 9 13 (w 2) (w 3)
  let s := mix s 2 6 10 14 (w 4) (w 5)
  let s := mix s 3 7 11 15 (w 6) (w 7)
  let s := mix s 0 5 10 15 (w 8) (w 9)
  let s := mix s 1 6 11 12 (w 10) (w 11)
  let s := mix s 2 7 8 13 (w 12) (w 13)
  mix s 3 4 9 14 (w 14) (w 15)

def rounds : Nat → Array Word → Array Word → Array Word
  | 0, s, _ => s
  | n + 1, s, m => rounds n (round s m) (messageOrder.map fun i => m.getD i 0)

/-- Join a chaining value with one block. The counter numbers the chunks. -/
def compress (chain : Chain) (block : Array Word) (counter length : Nat) (flags : Word) : Chain :=
  let state := chain ++ initialChain.extract 0 4
    ++ #[counter.toUInt32, (counter / 0x100000000).toUInt32, length.toUInt32, flags]
  let s := rounds 7 state block
  ((Array.range 8).map fun i => s.getD i 0 ^^^ s.getD (i + 8) 0)

def wordOf : Bytes → Word
  | [a, b, c, d] =>
    a.toUInt32 ||| (b.toUInt32 <<< 8) ||| (c.toUInt32 <<< 16) ||| (d.toUInt32 <<< 24)
  | _ => 0

def blockWords (bytes : Bytes) : Array Word :=
  let padded := bytes ++ List.replicate (64 - bytes.length) 0
  ((List.range 16).map fun i => wordOf ((padded.drop (4 * i)).take 4)).toArray

def pieces {α : Type} (size : Nat) : Nat → List α → List (List α)
  | 0, s => [s]
  | n + 1, s => if s.length ≤ size then [s] else s.take size :: pieces size n (s.drop size)

/-- The last step towards a chaining value, kept open because the root of the tree is flagged. -/
structure Output where
  chain : Chain
  block : Array Word
  counter : Nat
  length : Nat
  flags : Word

def Output.close (o : Output) (extra : Word) : Chain :=
  compress o.chain o.block o.counter o.length (o.flags ||| extra)

def chunkBlocks (counter : Nat) (chain : Chain) (flags : Word) : List Bytes → Output
  | [] => ⟨chain, blockWords [], counter, 0, flags ||| Flag.chunkEnd⟩
  | [last] => ⟨chain, blockWords last, counter, last.length, flags ||| Flag.chunkEnd⟩
  | b :: rest => chunkBlocks counter (compress chain (blockWords b) counter 64 flags) 0 rest

def chunk (counter : Nat) (bytes : Bytes) : Output :=
  chunkBlocks counter initialChain Flag.chunkStart (pieces 64 bytes.length bytes)

def parent (left right : Chain) : Output := ⟨initialChain, left ++ right, 0, 64, Flag.parent⟩

/-- The left side of the tree is the largest power of two that leaves something for the right. -/
def leftSize (n : Nat) : Nat := Nat.pow 2 (n - 1).log2

def tree : Nat → List (Nat × Bytes) → Output
  | _, [] => chunk 0 []
  | _, [(i, bytes)] => chunk i bytes
  | 0, (i, bytes) :: _ => chunk i bytes
  | n + 1, chunks =>
    let k := leftSize chunks.length
    parent ((tree n (chunks.take k)).close 0) ((tree n (chunks.drop k)).close 0)

def numbered : Nat → List Bytes → List (Nat × Bytes)
  | _, [] => []
  | i, c :: rest => (i, c) :: numbered (i + 1) rest

def rootChain (bytes : Bytes) : Chain :=
  let chunks := numbered 0 (pieces 1024 bytes.length bytes)
  (tree chunks.length chunks).close Flag.root

def hexByte (n : Nat) : List Char := [Text.hexDigit (n / 16 % 16), Text.hexDigit (n % 16)]

def wordHex (w : Word) : List Char :=
  let n := w.toNat
  hexByte n ++ hexByte (n / 0x100) ++ hexByte (n / 0x10000) ++ hexByte (n / 0x1000000)

def blake3Hex (bytes : Bytes) : String :=
  String.ofList ((rootChain bytes).toList.flatMap wordHex)

end Crosswalk.Digest
