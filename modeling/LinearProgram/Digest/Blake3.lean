/-!
# BLAKE3

The BLAKE3 hash of a string of bytes, 32 bytes long.  The input is cut into chunks of
1024 bytes, each chunk into blocks of 64 bytes.  Chunks are the leaves of a binary tree
in which a left subtree holds the greatest power of two of chunks that leaves something
for the right; the root is marked by a flag.
-/

namespace LinearProgram

namespace Blake3

/-- Eight words that stand for everything hashed so far. -/
abbrev ChainingValue :=
  Vector UInt32 8

/-- Sixteen words of input. -/
abbrev Block :=
  Vector UInt32 16

def initial : ChainingValue :=
  #v[0x6A09E667, 0xBB67AE85, 0x3C6EF372, 0xA54FF53A, 0x510E527F, 0x9B05688C, 0x1F83D9AB,
    0x5BE0CD19]

def chunkStart : UInt32 := 1

def chunkEnd : UInt32 := 2

def parentNode : UInt32 := 4

def rootNode : UInt32 := 8

def rotateRight (word amount : UInt32) : UInt32 :=
  (word >>> amount) ||| (word <<< (32 - amount))

/-- One mixing of two words of input into four words of the state. -/
def mix (state : Block) (a b c d : Fin 16) (x y : UInt32) : Block :=
  let va := state[a] + state[b] + x
  let vd := rotateRight (state[d] ^^^ va) 16
  let vc := state[c] + vd
  let vb := rotateRight (state[b] ^^^ vc) 12
  let va := va + vb + y
  let vd := rotateRight (vd ^^^ va) 8
  let vc := vc + vd
  let vb := rotateRight (vb ^^^ vc) 7
  (((state.set a va).set b vb).set c vc).set d vd

/-- The columns of the state mixed, and then its diagonals. -/
def round (state m : Block) : Block :=
  let state := mix state 0 4 8 12 m[0] m[1]
  let state := mix state 1 5 9 13 m[2] m[3]
  let state := mix state 2 6 10 14 m[4] m[5]
  let state := mix state 3 7 11 15 m[6] m[7]
  let state := mix state 0 5 10 15 m[8] m[9]
  let state := mix state 1 6 11 12 m[10] m[11]
  let state := mix state 2 7 8 13 m[12] m[13]
  mix state 3 4 9 14 m[14] m[15]

/-- The order in which the next round takes the words of input. -/
def permute (m : Block) : Block :=
  #v[m[2], m[6], m[3], m[10], m[7], m[0], m[4], m[13], m[1], m[11], m[12], m[5], m[9], m[14],
    m[15], m[8]]

/-- The given number of rounds, with the input permuted between them. -/
def rounds : Nat → Block → Block → Block
  | 0, state, _ => state
  | count + 1, state, m => rounds count (round state m) (permute m)

/-- What is compressed at a node of the tree. -/
structure Node where
  before : ChainingValue
  block : Block
  counter : Nat
  length : Nat
  flags : UInt32

/-- The words that come out of a node under additional flags. -/
def Node.compress (node : Node) (flags : UInt32) : ChainingValue :=
  let cv := node.before
  let state : Block :=
    #v[cv[0], cv[1], cv[2], cv[3], cv[4], cv[5], cv[6], cv[7], initial[0], initial[1], initial[2],
      initial[3], UInt32.ofNat node.counter, UInt32.ofNat (node.counter / 4294967296),
      UInt32.ofNat node.length, node.flags ||| flags]
  let state := rounds 7 state node.block
  Vector.ofFn fun i : Fin 8 => state[i.val] ^^^ state[i.val + 8]

/-- Four bytes as a word, the least significant first; missing bytes are zero. -/
def wordAt (bytes : Array UInt8) (index : Nat) : UInt32 :=
  let byte (i : Nat) : UInt32 := (bytes.getD (4 * index + i) 0).toUInt32
  byte 0 ||| byte 1 <<< 8 ||| byte 2 <<< 16 ||| byte 3 <<< 24

def blockOf (bytes : List UInt8) : Block :=
  let bytes := bytes.toArray
  Vector.ofFn fun i => wordAt bytes i

/-- The last block of a chunk, the earlier ones being compressed into its chaining value. -/
def chunkNode (cv : ChainingValue) (counter : Nat) (flags : UInt32) (bytes : List UInt8) : Node :=
  if 64 < bytes.length then
    let node : Node := ⟨cv, blockOf (bytes.take 64), counter, 64, flags⟩
    chunkNode (node.compress 0) counter 0 (bytes.drop 64)
  else
    ⟨cv, blockOf bytes, counter, bytes.length, flags ||| chunkEnd⟩
termination_by bytes.length
decreasing_by
  simp only [List.length_drop]
  omega

/-- The bytes in the left subtree of an input with more than one chunk. -/
def leftLength (size : Nat) : Nat :=
  1024 * Nat.pow 2 ((size - 1) / 1024).log2

theorem leftLength_lt {size : Nat} (h : 1024 < size) : leftLength size < size := by
  have hne : (size - 1) / 1024 ≠ 0 := by omega
  have hle : Nat.pow 2 ((size - 1) / 1024).log2 ≤ (size - 1) / 1024 := Nat.log2_self_le hne
  unfold leftLength
  omega

theorem leftLength_pos (size : Nat) : 0 < leftLength size := by
  unfold leftLength
  have hpos : 0 < Nat.pow 2 ((size - 1) / 1024).log2 := Nat.two_pow_pos _
  omega

/-- The node over two chaining values. -/
def joinNodes (left right : ChainingValue) : Node :=
  ⟨initial, left ++ right, 0, 64, parentNode⟩

/-- The node over some bytes, the first of which is in the chunk of the given number. -/
def treeNode (counter : Nat) (bytes : List UInt8) : Node :=
  if h : 1024 < bytes.length then
    let size := leftLength bytes.length
    joinNodes ((treeNode counter (bytes.take size)).compress 0)
      ((treeNode (counter + size / 1024) (bytes.drop size)).compress 0)
  else
    chunkNode initial counter chunkStart bytes
termination_by bytes.length
decreasing_by
  · have hlt := leftLength_lt h
    simp only [List.length_take]
    omega
  · have hpos := leftLength_pos bytes.length
    simp only [List.length_drop]
    omega

/-- The hash of some bytes. -/
def hash (bytes : List UInt8) : Vector UInt8 32 :=
  let words := (treeNode 0 bytes).compress rootNode
  Vector.ofFn fun i : Fin 32 => (words[i.val / 4] >>> UInt32.ofNat (8 * (i.val % 4))).toUInt8

end Blake3

end LinearProgram
