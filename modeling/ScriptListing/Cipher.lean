import ScriptListing.Failure

/-! Encrypted dumps: the 256-bit block cipher with the 16-byte blocks of a file taken one
by one, and zero bytes added to fill the last one. Bytes are elements of the field with
256 elements, a block is four columns of four. -/
namespace ScriptListing.Cipher

def double (b : UInt8) : UInt8 := (b <<< 1) ^^^ (if b &&& 0x80 = 0 then 0 else 0x1B)

/-- The sum of doubles of `a` that the low bits of `b` select. -/
def sumOfDoubles : (bits : Nat) → UInt8 → UInt8 → UInt8
  | 0, _, _ => 0
  | bits + 1, a, b => (if b &&& 1 = 0 then 0 else a) ^^^ sumOfDoubles bits (double a) (b >>> 1)

def mul (a b : UInt8) : UInt8 := sumOfDoubles 8 a b

/-- The product of the squares of `b` up to the power `2 ^ count`. -/
def squares : (count : Nat) → UInt8 → UInt8
  | 0, _ => 1
  | count + 1, b => mul (mul b b) (squares count (mul b b))

/-- The power 254, which inverts all but zero. -/
def inverse (b : UInt8) : UInt8 := squares 7 b

def rotate (b : UInt8) (bits : UInt8) : UInt8 := (b <<< bits) ||| (b >>> (8 - bits))

def substitute (b : UInt8) : UInt8 :=
  let i := inverse b
  i ^^^ rotate i 1 ^^^ rotate i 2 ^^^ rotate i 3 ^^^ rotate i 4 ^^^ 0x63

def restore (b : UInt8) : UInt8 :=
  inverse (rotate b 1 ^^^ rotate b 3 ^^^ rotate b 6 ^^^ 0x05)

structure Word where
  a : UInt8
  b : UInt8
  c : UInt8
  d : UInt8
  deriving DecidableEq, Repr, Inhabited

namespace Word

def zero : Word := ⟨0, 0, 0, 0⟩

def xor (v w : Word) : Word := ⟨v.a ^^^ w.a, v.b ^^^ w.b, v.c ^^^ w.c, v.d ^^^ w.d⟩

def map (f : UInt8 → UInt8) (w : Word) : Word := ⟨f w.a, f w.b, f w.c, f w.d⟩

def turn (w : Word) : Word := ⟨w.b, w.c, w.d, w.a⟩

def bytes (w : Word) : List UInt8 := [w.a, w.b, w.c, w.d]

def dot (v w : Word) : UInt8 := mul v.a w.a ^^^ mul v.b w.b ^^^ mul v.c w.c ^^^ mul v.d w.d

/-- The product with the matrix whose rows are a row and its turns to the right. -/
def circulant (row w : Word) : Word :=
  ⟨row.dot w, (row.turn.turn.turn).dot w, (row.turn.turn).dot w, row.turn.dot w⟩

def mix (w : Word) : Word := circulant ⟨2, 3, 1, 1⟩ w

def unmix (w : Word) : Word := circulant ⟨14, 11, 13, 9⟩ w

end Word

structure Block where
  p : Word
  q : Word
  r : Word
  s : Word
  deriving DecidableEq, Repr, Inhabited

namespace Block

def xor (x y : Block) : Block := ⟨x.p.xor y.p, x.q.xor y.q, x.r.xor y.r, x.s.xor y.s⟩

def map (f : Word → Word) (x : Block) : Block := ⟨f x.p, f x.q, f x.r, f x.s⟩

/-- Row `i` turned left by `i`. -/
def shift (x : Block) : Block :=
  ⟨⟨x.p.a, x.q.b, x.r.c, x.s.d⟩, ⟨x.q.a, x.r.b, x.s.c, x.p.d⟩,
    ⟨x.r.a, x.s.b, x.p.c, x.q.d⟩, ⟨x.s.a, x.p.b, x.q.c, x.r.d⟩⟩

def unshift (x : Block) : Block :=
  ⟨⟨x.p.a, x.s.b, x.r.c, x.q.d⟩, ⟨x.q.a, x.p.b, x.s.c, x.r.d⟩,
    ⟨x.r.a, x.q.b, x.p.c, x.s.d⟩, ⟨x.s.a, x.r.b, x.q.c, x.p.d⟩⟩

def bytes (x : Block) : List UInt8 := x.p.bytes ++ x.q.bytes ++ x.r.bytes ++ x.s.bytes

end Block

def words : List UInt8 → List Word
  | a :: b :: c :: d :: rest => ⟨a, b, c, d⟩ :: words rest
  | _ => []

def blocks : List Word → List Block
  | p :: q :: r :: s :: rest => ⟨p, q, r, s⟩ :: blocks rest
  | _ => []

/-- Word `i` of the schedule from the words before it, the last one first. -/
def nextWord (i : Nat) (before : List Word) : Word :=
  let last := before.headD .zero
  let mixed :=
    if i % 8 = 0 then
      (last.turn.map substitute).xor ⟨Nat.repeat double (i / 8 - 1) 1, 0, 0, 0⟩
    else if i % 8 = 4 then last.map substitute
    else last
  (before.getD 7 .zero).xor mixed

def extend : (count : Nat) → (i : Nat) → (before : List Word) → List Word
  | 0, _, before => before.reverse
  | count + 1, i, before => extend count (i + 1) (nextWord i before :: before)

def roundKeys (key : List UInt8) : List Block := blocks (extend 52 8 (words key).reverse)

/-- Rounds after the first key; the last one does not mix. -/
def rounds : List Block → Block → Block
  | [], x => x
  | [k], x => ((x.map (Word.map substitute)).shift).xor k
  | k :: rest, x => rounds rest (((x.map (Word.map substitute)).shift.map Word.mix).xor k)

def unrounds : List Block → Block → Block
  | [], x => x
  | [k], x => (x.xor k).unshift.map (Word.map restore)
  | k :: rest, x => (((unrounds rest x).xor k).map Word.unmix).unshift.map (Word.map restore)

def encryptBlock : (keys : List Block) → Block → Block
  | [], x => x
  | k :: rest, x => rounds rest (x.xor k)

def decryptBlock : (keys : List Block) → Block → Block
  | [], x => x
  | k :: rest, x => (unrounds rest x).xor k

def blockSize : Nat := 16
def keySize : Nat := 32

def pad (data : List UInt8) : List UInt8 :=
  data ++ List.replicate ((blockSize - data.length % blockSize) % blockSize) 0

def trimZeros (data : List UInt8) : List UInt8 := (data.reverse.dropWhile (· == 0)).reverse

def eachBlock (f : Block → Block) (data : List UInt8) : List UInt8 :=
  (blocks (words data)).flatMap fun x => (f x).bytes

def encrypt (key data : List UInt8) : List UInt8 :=
  eachBlock (encryptBlock (roundKeys key)) (pad data)

/-- Data of whole blocks decrypted, without zero bytes at the end. -/
def decrypt (key data : List UInt8) : Attempt (List UInt8) :=
  if data.length % blockSize ≠ 0 then fail (.partialBlock data.length)
  else .ok (trimZeros (eachBlock (decryptBlock (roundKeys key)) data))

end ScriptListing.Cipher
