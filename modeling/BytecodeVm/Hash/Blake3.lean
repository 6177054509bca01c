import BytecodeVm.Bytes

/-! BLAKE3 with a 32-byte digest: chunks of 1024 bytes, each a chain of 64-byte blocks,
joined by a binary tree whose left branches are full. -/
namespace BytecodeVm.Blake3

structure Quad where
  a : UInt32
  b : UInt32
  c : UInt32
  d : UInt32

structure Grid where
  c0 : Quad
  c1 : Quad
  c2 : Quad
  c3 : Quad

def rotateRight (x n : UInt32) : UInt32 := (x >>> n) ||| (x <<< (32 - n))

def Quad.mix (q : Quad) (x y : UInt32) : Quad :=
  let a := q.a + q.b + x
  let d := rotateRight (q.d ^^^ a) 16
  let c := q.c + d
  let b := rotateRight (q.b ^^^ c) 12
  let a := a + b + y
  let d := rotateRight (d ^^^ a) 8
  let c := c + d
  let b := rotateRight (b ^^^ c) 7
  ⟨a, b, c, d⟩

def Grid.diagonals (g : Grid) : Grid where
  c0 := ⟨g.c0.a, g.c1.b, g.c2.c, g.c3.d⟩
  c1 := ⟨g.c1.a, g.c2.b, g.c3.c, g.c0.d⟩
  c2 := ⟨g.c2.a, g.c3.b, g.c0.c, g.c1.d⟩
  c3 := ⟨g.c3.a, g.c0.b, g.c1.c, g.c2.d⟩

def Grid.columns (g : Grid) : Grid where
  c0 := ⟨g.c0.a, g.c3.b, g.c2.c, g.c1.d⟩
  c1 := ⟨g.c1.a, g.c0.b, g.c3.c, g.c2.d⟩
  c2 := ⟨g.c2.a, g.c1.b, g.c0.c, g.c3.d⟩
  c3 := ⟨g.c3.a, g.c2.b, g.c1.c, g.c0.d⟩

abbrev Message := Vector UInt32 16

def Grid.round (g : Grid) (m : Message) : Grid :=
  let g := Grid.diagonals
    ⟨g.c0.mix m[0] m[1], g.c1.mix m[2] m[3], g.c2.mix m[4] m[5], g.c3.mix m[6] m[7]⟩
  Grid.columns
    ⟨g.c0.mix m[8] m[9], g.c1.mix m[10] m[11], g.c2.mix m[12] m[13], g.c3.mix m[14] m[15]⟩

def permute (m : Message) : Message :=
  #v[m[2], m[6], m[3], m[10], m[7], m[0], m[4], m[13],
    m[1], m[11], m[12], m[5], m[9], m[14], m[15], m[8]]

def rounds : (n : Nat) → Grid → Message → Grid
  | 0, g, _ => g
  | n + 1, g, m => rounds n (g.round m) (permute m)

abbrev Chain := Vector UInt32 8

def start : Chain :=
  #v[0x6a09e667, 0xbb67ae85, 0x3c6ef372, 0xa54ff53a,
    0x510e527f, 0x9b05688c, 0x1f83d9ab, 0x5be0cd19]

def chunkStart : UInt32 := 1
def chunkEnd : UInt32 := 2
def parent : UInt32 := 4
def root : UInt32 := 8

/-- The last block of a chunk or parent, before it is known whether it is the root. -/
structure Node where
  chain : Chain
  message : Message
  counter : UInt64
  length : UInt32
  flags : UInt32

def Node.compress (n : Node) : Chain :=
  let v := n.chain
  let g : Grid := rounds 7
    ⟨⟨v[0], v[4], start[0], n.counter.toUInt32⟩,
      ⟨v[1], v[5], start[1], (n.counter >>> 32).toUInt32⟩,
      ⟨v[2], v[6], start[2], n.length⟩,
      ⟨v[3], v[7], start[3], n.flags⟩⟩ n.message
  #v[g.c0.a ^^^ g.c0.c, g.c1.a ^^^ g.c1.c, g.c2.a ^^^ g.c2.c, g.c3.a ^^^ g.c3.c,
    g.c0.b ^^^ g.c0.d, g.c1.b ^^^ g.c1.d, g.c2.b ^^^ g.c2.d, g.c3.b ^^^ g.c3.d]

/-- The little-endian word at `i`, with zeros from `stop` on. -/
def word (b : Bytes) (stop i : Nat) : UInt32 :=
  let byte (j : Nat) : UInt32 := if j < stop then (b.byteAt j).toUInt32 else 0
  byte i ||| byte (i + 1) <<< 8 ||| byte (i + 2) <<< 16 ||| byte (i + 3) <<< 24

def block (b : Bytes) (stop i : Nat) : Message :=
  Vector.ofFn fun k => word b stop (i + 4 * k.val)

def blockSize : Nat := 64
def chunkSize : Nat := 1024

/-- Runs over the blocks of the chunk from `i` to `stop`; `blocks` bounds how many are left. -/
def chunkFrom (b : Bytes) (counter : UInt64) (stop : Nat) :
    (blocks i : Nat) → (flags : UInt32) → Chain → Node
  | blocks, i, flags, chain =>
    let length := UInt32.ofNat (min blockSize (stop - i))
    let node : Node := ⟨chain, block b stop i, counter, length, flags⟩
    match blocks with
    | 0 => { node with flags := flags ||| chunkEnd }
    | blocks + 1 =>
      if stop ≤ i + blockSize then { node with flags := flags ||| chunkEnd }
      else chunkFrom b counter stop blocks (i + blockSize) 0 node.compress

def chunk (b : Bytes) (first stop : Nat) : Node :=
  chunkFrom b (UInt64.ofNat (first / chunkSize)) stop (chunkSize / blockSize) first chunkStart start

/-- The number of chunks in the left branch over more than one chunk: the greatest power
of two below `n`. -/
def leftChunks (n : Nat) : Nat := 1 <<< Nat.log2 (n - 1)

/-- The node over the bytes from `first` to `stop`; `depth` bounds the height of the tree. -/
def node (b : Bytes) : (depth first stop : Nat) → Node
  | 0, first, stop => chunk b first stop
  | depth + 1, first, stop =>
    let chunks := (stop - first + chunkSize - 1) / chunkSize
    if chunks ≤ 1 then chunk b first stop
    else
      let middle := first + leftChunks chunks * chunkSize
      let left := (node b depth first middle).compress
      let right := (node b depth middle stop).compress
      let message : Message := Vector.ofFn fun k =>
        if h : k.val < 8 then left[k.val] else right[k.val - 8]
      ⟨start, message, 0, UInt32.ofNat blockSize, parent⟩

def digest (b : Bytes) : List UInt8 :=
  let top := node b 64 0 b.size
  let chain := { top with flags := top.flags ||| root }.compress
  chain.toList.flatMap fun w => LittleEndian.ofNat 4 w.toNat

end BytecodeVm.Blake3
