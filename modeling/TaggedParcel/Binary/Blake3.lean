import TaggedParcel.Binary.LittleEndian

set_option relaxedAutoImplicit false
set_option autoImplicit false

/-!
# The BLAKE3 hash

The message is cut into chunks of 1024 bytes and each chunk into blocks of 64. The blocks of a
chunk are compressed one after another; the chunks are the leaves of a binary tree, whose inner
nodes compress the chaining values of their two children. The last compression of all is marked
as the root.

## Main definitions

* `Blake3.compress` — the compression function.
* `Blake3.Node` — a compression that is still to be made, as a root or not.
* `Blake3.hashWords` — the first eight words of the hash of a message.
* `Blake3.head64` — the first eight bytes of the hash, as a little-endian number.
-/

namespace TaggedParcel.Blake3

/-- The initial chaining value. -/
def initial : Vector UInt32 8 :=
  #v[0x6A09E667, 0xBB67AE85, 0x3C6EF372, 0xA54FF53A, 0x510E527F, 0x9B05688C, 0x1F83D9AB,
    0x5BE0CD19]

/-- The order in which a round takes the words of the round before it. -/
def permutation : Vector (Fin 16) 16 :=
  #v[2, 6, 3, 10, 7, 0, 4, 13, 1, 11, 12, 5, 9, 14, 15, 8]

/-- Marks the first block of a chunk. -/
def chunkStart : UInt32 := 1

/-- Marks the last block of a chunk. -/
def chunkEnd : UInt32 := 2

/-- Marks an inner node of the tree. -/
def parent : UInt32 := 4

/-- Marks the last compression. -/
def root : UInt32 := 8

/-- Rotation to the right. -/
def rotateRight (x : UInt32) (n : UInt32) : UInt32 :=
  (x >>> n) ||| (x <<< (32 - n))

/-- Mixes two message words into four words of the state. -/
def mix (s : Vector UInt32 16) (a b c d : Fin 16) (x y : UInt32) : Vector UInt32 16 :=
  let s := s.set a (s[a] + s[b] + x)
  let s := s.set d (rotateRight (s[d] ^^^ s[a]) 16)
  let s := s.set c (s[c] + s[d])
  let s := s.set b (rotateRight (s[b] ^^^ s[c]) 12)
  let s := s.set a (s[a] + s[b] + y)
  let s := s.set d (rotateRight (s[d] ^^^ s[a]) 8)
  let s := s.set c (s[c] + s[d])
  s.set b (rotateRight (s[b] ^^^ s[c]) 7)

/-- One round: the columns of the state, then its diagonals. -/
def round (s m : Vector UInt32 16) : Vector UInt32 16 :=
  let s := mix s 0 4 8 12 m[0] m[1]
  let s := mix s 1 5 9 13 m[2] m[3]
  let s := mix s 2 6 10 14 m[4] m[5]
  let s := mix s 3 7 11 15 m[6] m[7]
  let s := mix s 0 5 10 15 m[8] m[9]
  let s := mix s 1 6 11 12 m[10] m[11]
  let s := mix s 2 7 8 13 m[12] m[13]
  mix s 3 4 9 14 m[14] m[15]

/-- Rounds on permuted message words. -/
def rounds : (count : Nat) → (s m : Vector UInt32 16) → Vector UInt32 16
  | 0, s, _ => s
  | count + 1, s, m => rounds count (round s m) (permutation.map fun i => m[i])

/-- The compression function, of which the first eight words are kept. -/
def compress (chain : Vector UInt32 8) (block : Vector UInt32 16) (counter : Nat)
    (length flags : UInt32) : Vector UInt32 8 :=
  let state : Vector UInt32 16 :=
    #v[chain[0], chain[1], chain[2], chain[3], chain[4], chain[5], chain[6], chain[7],
      initial[0], initial[1], initial[2], initial[3],
      UInt32.ofNat counter, UInt32.ofNat (counter / UInt32.size), length, flags]
  let s := rounds 7 state block
  #v[s[0] ^^^ s[8], s[1] ^^^ s[9], s[2] ^^^ s[10], s[3] ^^^ s[11],
    s[4] ^^^ s[12], s[5] ^^^ s[13], s[6] ^^^ s[14], s[7] ^^^ s[15]]

/-- The words of a block, filled up with zeros. -/
def blockWords (block : List UInt8) : Vector UInt32 16 :=
  Vector.ofFn fun i => UInt32.ofNat (LittleEndian.value ((block.drop (4 * i)).take 4))

/-- A compression that is still to be made. -/
structure Node where
  /-- The chaining value that goes in. -/
  chain : Vector UInt32 8
  /-- The message words. -/
  block : Vector UInt32 16
  /-- The number of the chunk, or zero. -/
  counter : Nat
  /-- How many bytes of the block are message. -/
  length : UInt32
  /-- What kind of node this is. -/
  flags : UInt32

namespace Node

/-- The chaining value of an inner node or leaf. -/
def output (n : Node) : Vector UInt32 8 :=
  compress n.chain n.block n.counter n.length n.flags

/-- The hash, if this is the last compression. -/
def rootOutput (n : Node) : Vector UInt32 8 :=
  compress n.chain n.block n.counter n.length (n.flags ||| root)

/-- The inner node above two nodes. -/
def join (left right : Node) : Node :=
  let l := left.output
  let r := right.output
  { chain := initial
    block := #v[l[0], l[1], l[2], l[3], l[4], l[5], l[6], l[7],
      r[0], r[1], r[2], r[3], r[4], r[5], r[6], r[7]]
    counter := 0
    length := 64
    flags := parent }

end Node

/-- The last compression of a chunk, behind the blocks compressed so far. A chunk has at most
sixteen blocks. -/
def chunkNode (counter : Nat) : (blocks : Nat) → (chain : Vector UInt32 8) →
    (flags : UInt32) → (bytes : List UInt8) → Node
  | 0, chain, flags, bytes =>
    ⟨chain, blockWords bytes, counter, UInt32.ofNat bytes.length, flags ||| chunkEnd⟩
  | blocks + 1, chain, flags, bytes =>
    if bytes.length ≤ 64 then
      ⟨chain, blockWords bytes, counter, UInt32.ofNat bytes.length, flags ||| chunkEnd⟩
    else
      chunkNode counter blocks (compress chain (blockWords (bytes.take 64)) counter 64 flags) 0
        (bytes.drop 64)

/-- The leaf of a chunk. -/
def leaf (counter : Nat) (bytes : List UInt8) : Node :=
  chunkNode counter 15 initial chunkStart bytes

/-- The leaves of a message. Every chunk takes a byte at least, so `fuel` for the bytes is
enough. -/
def leaves : (fuel : Nat) → (counter : Nat) → List UInt8 → List Node
  | 0, counter, bytes => [leaf counter bytes]
  | fuel + 1, counter, bytes =>
    if bytes.length ≤ 1024 then
      [leaf counter bytes]
    else
      leaf counter (bytes.take 1024) :: leaves fuel (counter + 1) (bytes.drop 1024)

/-- Joins neighbours. A node without one is left as it is. -/
def joinPairs : List Node → List Node
  | left :: right :: rest => left.join right :: joinPairs rest
  | nodes => nodes

/-- The hash below which all nodes hang, found by joining neighbours until one is left. Every
step about halves their number, so `fuel` for their number is enough. -/
def rootOf : (fuel : Nat) → List Node → Vector UInt32 8
  | _, [node] => node.rootOutput
  | fuel + 1, nodes => rootOf fuel (joinPairs nodes)
  | 0, _ => initial

/-- The first eight words of the hash of a message. -/
def hashWords (message : List UInt8) : Vector UInt32 8 :=
  rootOf (message.length + 1) (leaves message.length 0 message)

/-- The first eight bytes of the hash of a message, as a little-endian number. -/
def head64 (message : List UInt8) : UInt64 :=
  let words := hashWords message
  words[0].toUInt64 ||| (words[1].toUInt64 <<< 32)

end TaggedParcel.Blake3
