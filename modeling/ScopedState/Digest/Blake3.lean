/-
`Digest/Blake3.lean` -- the BLAKE3 digest of a byte string.

The bytes are cut into chunks of 1024 and each chunk into blocks of 64. One
function, `compress`, takes a chaining value of eight words, a block of
sixteen words and four parameters to sixteen words. A chunk is compressed
block after block; the chunks are then joined pairwise, level by level, an odd
node at the end of a level going up as it is. That is the tree whose left
branch is always the largest full one. The last compression carries a flag of
its own, so the root of a long input is not a node of a longer one.

A state is four rows of four words. A round mixes the four columns, and then
the four diagonals, which are the columns again once row `i` has been turned
by `i` places.
-/
import ScopedState.Digest
set_option autoImplicit false

namespace ScopedState.Blake3

/-! ## 1. Rows of words -/

/-- Four words side by side. -/
structure Row where
  w0 : UInt32
  w1 : UInt32
  w2 : UInt32
  w3 : UInt32
  deriving DecidableEq, Repr

namespace Row

/-- Turn a row to the left by one place. -/
def turn (r : Row) : Row := ⟨r.w1, r.w2, r.w3, r.w0⟩

/-- Combine two rows word by word. -/
def zip (f : UInt32 → UInt32 → UInt32) (r s : Row) : Row :=
  ⟨f r.w0 s.w0, f r.w1 s.w1, f r.w2 s.w2, f r.w3 s.w3⟩

/-- Apply a function to every word. -/
def map (f : UInt32 → UInt32) (r : Row) : Row := ⟨f r.w0, f r.w1, f r.w2, f r.w3⟩

/-- The words of a row. -/
def toList (r : Row) : List UInt32 := [r.w0, r.w1, r.w2, r.w3]

end Row

/-- Four rows of words: the state of a compression. -/
structure State where
  a : Row
  b : Row
  c : Row
  d : Row

/-- Turn the bits of a word to the right. -/
def rotate (n : UInt32) (x : UInt32) : UInt32 := (x >>> n) ||| (x <<< (32 - n))

/-! ## 2. Rounds -/

/-- Half of a mixing step on all four columns: add a row of message words and
turn by `r` and `s` bits. -/
def halfMix (r s : UInt32) (m : Row) (v : State) : State :=
  let a := ((v.a.zip (· + ·) v.b).zip (· + ·) m)
  let d := (v.d.zip (· ^^^ ·) a).map (rotate r)
  let c := v.c.zip (· + ·) d
  let b := (v.b.zip (· ^^^ ·) c).map (rotate s)
  ⟨a, b, c, d⟩

/-- Mix every column with its two message words. -/
def mix (x y : Row) (v : State) : State := halfMix 8 7 y (halfMix 16 12 x v)

/-- Bring the diagonals into the columns. -/
def State.skew (v : State) : State := ⟨v.a, v.b.turn, v.c.turn.turn, v.d.turn.turn.turn⟩

/-- Undo `skew`. -/
def State.unskew (v : State) : State := ⟨v.a, v.b.turn.turn.turn, v.c.turn.turn, v.d.turn⟩

/-- The words of a block at the given places. -/
def pick (m : List UInt32) (i j k l : Nat) : Row :=
  ⟨m.getD i 0, m.getD j 0, m.getD k 0, m.getD l 0⟩

/-- One round: the columns take the first eight message words, the diagonals
the last eight. -/
def round (m : List UInt32) (v : State) : State :=
  let v := mix (pick m 0 2 4 6) (pick m 1 3 5 7) v
  (mix (pick m 8 10 12 14) (pick m 9 11 13 15) v.skew).unskew

/-- Where the message words of the next round come from. -/
def permutation : List Nat := [2, 6, 3, 10, 7, 0, 4, 13, 1, 11, 12, 5, 9, 14, 15, 8]

/-- The message words of the next round. -/
def permute (m : List UInt32) : List UInt32 := permutation.map fun i => m.getD i 0

/-- Rounds with the message permuted in between. -/
def rounds : Nat → List UInt32 → State → State
  | 0, _, v => v
  | n + 1, m, v => rounds n (permute m) (round m v)

/-! ## 3. Compression -/

/-- A chaining value: eight words. -/
structure Chain where
  front : Row
  back : Row
  deriving DecidableEq, Repr

/-- The constants that start every chain. -/
def initial : Chain :=
  ⟨⟨0x6A09E667, 0xBB67AE85, 0x3C6EF372, 0xA54FF53A⟩,
   ⟨0x510E527F, 0x9B05688C, 0x1F83D9AB, 0x5BE0CD19⟩⟩

/-- The words of a chaining value. -/
def Chain.toList (c : Chain) : List UInt32 := c.front.toList ++ c.back.toList

/-- The flag of the first block of a chunk. -/
def chunkStart : UInt32 := 1
/-- The flag of the last block of a chunk. -/
def chunkEnd : UInt32 := 2
/-- The flag of a node with two children. -/
def parentNode : UInt32 := 4
/-- The flag of the last compression. -/
def rootNode : UInt32 := 8

/-- The chaining value that follows from a block. `counter` is the number of
the chunk, `size` the number of bytes in the block. -/
def compress (chain : Chain) (m : List UInt32) (counter size : Nat) (flags : UInt32) : Chain :=
  let v := rounds 7 m
    ⟨chain.front, chain.back, initial.front,
     ⟨UInt32.ofNat counter, UInt32.ofNat (counter / Nat.pow 2 32), UInt32.ofNat size, flags⟩⟩
  ⟨v.a.zip (· ^^^ ·) v.c, v.b.zip (· ^^^ ·) v.d⟩

/-! ## 4. Chunks -/

/-- The words of a byte string, least byte first; missing bytes are zero. -/
def words : Nat → Bytes → List UInt32
  | 0, _ => []
  | n + 1, bytes =>
    let byte (i : Nat) : UInt32 := (bytes.getD i 0).toUInt32
    (byte 0 ||| byte 1 <<< 8 ||| byte 2 <<< 16 ||| byte 3 <<< 24) :: words n (bytes.drop 4)

/-- Cut a byte string into pieces of `size` bytes; the last one may be
shorter, and the empty string has one piece. -/
def split (size : Nat) : Nat → Bytes → List Bytes
  | 0, bytes => [bytes]
  | fuel + 1, bytes =>
    if bytes.length ≤ size then [bytes]
    else bytes.take size :: split size fuel (bytes.drop size)

/-- Compress the blocks of chunk `counter`; `last` are the flags of its last
block. -/
def chunkChain (counter : Nat) (last : UInt32) : UInt32 → Chain → List Bytes → Chain
  | _, chain, [] => chain
  | first, chain, [block] =>
    compress chain (words 16 block) counter block.length (first ||| last)
  | first, chain, block :: rest =>
    chunkChain counter last 0 (compress chain (words 16 block) counter block.length first) rest

/-- The chaining value of a chunk. -/
def chunk (flags : UInt32) (counter : Nat) (bytes : Bytes) : Chain :=
  chunkChain counter (chunkEnd ||| flags) chunkStart initial (split 64 16 bytes)

/-! ## 5. The tree -/

/-- The chaining value of a node with two children. -/
def join (flags : UInt32) (left right : Chain) : Chain :=
  compress initial (left.toList ++ right.toList) 0 64 (parentNode ||| flags)

/-- One level of the tree from the level below it. -/
def level : List Chain → List Chain
  | left :: right :: rest => join 0 left right :: level rest
  | rest => rest

/-- Build levels until two nodes are left, and join these as the root. -/
def root : Nat → List Chain → Chain
  | _, [left, right] => join rootNode left right
  | 0, nodes => nodes.headD initial
  | fuel + 1, nodes => root fuel (level nodes)

/-- The digest of a byte string. -/
def chain (bytes : Bytes) : Chain :=
  match split 1024 (bytes.length / 1024) bytes with
  | [only] => chunk rootNode 0 only
  | chunks => root chunks.length (chunks.mapIdx fun i bytes => chunk 0 i bytes)

/-! ## 6. The digest -/

/-- A BLAKE3 digest. -/
structure Hash where
  chain : Chain
  deriving DecidableEq, Repr

instance : Digest Hash := ⟨fun bytes => ⟨chain bytes⟩⟩

namespace Hash

/-- A hexadecimal digit. -/
def digit (n : Nat) : Char := if n < 10 then Char.ofNat (48 + n) else Char.ofNat (87 + n)

/-- A word as eight digits, least byte first. -/
def wordHex (w : UInt32) : List Char :=
  [0, 1, 2, 3].flatMap fun i =>
    let b := w.toNat / Nat.pow 256 i % 256
    [digit (b / 16), digit (b % 16)]

/-- The 64 digits of a digest. -/
def toHex (h : Hash) : String := String.ofList (h.chain.toList.flatMap wordHex)

/-- The first twelve digits. -/
def short (h : Hash) : String := String.ofList ((h.chain.toList.flatMap wordHex).take 12)

end Hash

end ScopedState.Blake3
