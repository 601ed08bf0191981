import Mathlib.Data.List.DropRight
import ScriptListing.Proofs.Cipher.Field

/-! Decryption undoes encryption. Each step of a round has its inverse, so a block comes back
under the same round keys; blocks are taken one by one from the front, so whole data come back
too, and of the zero bytes at their end none is told from the padding. -/
namespace ScriptListing.Cipher

namespace Word

theorem restore_substitute (w : Word) : (w.map substitute).map restore = w := by
  simp only [map, Cipher.restore_substitute]

theorem xor_cancel (v w : Word) : (v.xor w).xor w = v := by
  simp only [xor, UInt8.xor_assoc, UInt8.xor_self, UInt8.xor_zero]

theorem dot_xor (row v w : Word) : row.dot (v.xor w) = row.dot v ^^^ row.dot w := by
  simp only [dot, xor, mul_xor]
  ac_rfl

theorem dot_turn (row w : Word) : row.turn.dot w.turn = row.dot w := by
  simp only [dot, turn]
  ac_rfl

theorem dot_map (row w : Word) (b : UInt8) : row.dot (w.map (mul b)) = mul b (row.dot w) := by
  have swap (x y : UInt8) : mul x (mul b y) = mul b (mul x y) := by
    rw [← mul_assoc, mul_comm x, mul_assoc]
  simp only [dot, map, mul_xor, swap]

theorem circulant_xor (row v w : Word) :
    circulant row (v.xor w) = (circulant row v).xor (circulant row w) := by
  simp only [circulant, dot_xor]
  rfl

theorem circulant_turn (row w : Word) : circulant row w.turn = (circulant row w).turn := by
  have around : row.turn.turn.turn.turn = row := rfl
  have first := dot_turn row.turn.turn.turn w
  rw [around] at first
  simp only [circulant, first, dot_turn]
  rfl

theorem circulant_map (row w : Word) (b : UInt8) :
    circulant row (w.map (mul b)) = (circulant row w).map (mul b) := by
  simp only [circulant, dot_map]
  rfl

def single (b : UInt8) : Word := ⟨b, 0, 0, 0⟩

theorem unmix_mix_single (b : UInt8) : (single b).mix.unmix = single b := by
  have scaled : single b = (single 1).map (mul b) := by
    simp [single, map, mul_zero, mul_comm b 1, one_mul]
  have one : (single 1).mix.unmix = single 1 := by decide +kernel
  unfold mix unmix at one ⊢
  rw [scaled, circulant_map, circulant_map, one]

theorem unmix_mix_turn (w : Word) : w.turn.mix.unmix = w.mix.unmix.turn := by
  unfold mix unmix
  rw [circulant_turn, circulant_turn]

theorem unmix_mix_xor (v w : Word) :
    (v.xor w).mix.unmix = v.mix.unmix.xor w.mix.unmix := by
  unfold mix unmix
  rw [circulant_xor, circulant_xor]

/-- A column is a sum of columns with one byte, and mixing respects sums and turns. -/
theorem unmix_mix (w : Word) : w.mix.unmix = w := by
  have parts : w = (single w.a).xor ((single w.b).turn.turn.turn.xor
      ((single w.c).turn.turn.xor (single w.d).turn)) := by
    simp [single, turn, xor]
  rw [parts]
  simp only [unmix_mix_xor, unmix_mix_turn, unmix_mix_single]

end Word

namespace Block

theorem xor_cancel (x k : Block) : (x.xor k).xor k = x := by
  simp only [xor, Word.xor_cancel]

theorem unshift_shift (x : Block) : x.shift.unshift = x := rfl

theorem restore_substitute (x : Block) :
    (x.map (Word.map substitute)).map (Word.map restore) = x := by
  simp only [map, Word.restore_substitute]

theorem unmix_mix (x : Block) : (x.map Word.mix).map Word.unmix = x := by
  simp only [map, Word.unmix_mix]

end Block

theorem unrounds_rounds (keys : List Block) (x : Block) : unrounds keys (rounds keys x) = x := by
  induction keys generalizing x with
  | nil => rfl
  | cons k rest ih =>
    cases rest with
    | nil =>
      simp only [rounds, unrounds]
      rw [Block.xor_cancel, Block.unshift_shift, Block.restore_substitute]
    | cons next rest =>
      simp only [rounds, unrounds]
      rw [ih, Block.xor_cancel, Block.unmix_mix, Block.unshift_shift, Block.restore_substitute]

theorem decryptBlock_encryptBlock (keys : List Block) (x : Block) :
    decryptBlock keys (encryptBlock keys x) = x := by
  cases keys with
  | nil => rfl
  | cons k rest =>
    simp only [encryptBlock, decryptBlock]
    rw [unrounds_rounds, Block.xor_cancel]

/-- Data taken block by block from the front, with nothing left over. -/
inductive Blockwise (f : Block → Block) : List UInt8 → List UInt8 → Prop where
  | nil : Blockwise f [] []
  | cons (x : Block) {data out : List UInt8} (rest : Blockwise f data out) :
      Blockwise f (x.bytes ++ data) ((f x).bytes ++ out)

theorem Block.length_bytes (x : Block) : x.bytes.length = blockSize := rfl

theorem eachBlock_append (f : Block → Block) (x : Block) (rest : List UInt8) :
    eachBlock f (x.bytes ++ rest) = (f x).bytes ++ eachBlock f rest := rfl

theorem exists_block {data : List UInt8} (long : blockSize ≤ data.length) :
    ∃ (x : Block) (rest : List UInt8), data = x.bytes ++ rest := by
  match data, long with
  | a₁ :: b₁ :: c₁ :: d₁ :: a₂ :: b₂ :: c₂ :: d₂ :: a₃ :: b₃ :: c₃ :: d₃ ::
      a₄ :: b₄ :: c₄ :: d₄ :: rest, _ =>
    exact ⟨⟨⟨a₁, b₁, c₁, d₁⟩, ⟨a₂, b₂, c₂, d₂⟩, ⟨a₃, b₃, c₃, d₃⟩, ⟨a₄, b₄, c₄, d₄⟩⟩, rest, rfl⟩

namespace Blockwise

variable {f g : Block → Block} {data out : List UInt8}

theorem eachBlock {count : Nat} (whole : data.length = blockSize * count) :
    Blockwise f data (eachBlock f data) := by
  induction count generalizing data with
  | zero =>
    obtain rfl := List.length_eq_zero_iff.mp whole
    exact .nil
  | succ count ih =>
    rw [Nat.mul_succ] at whole
    have long : blockSize ≤ data.length := by omega
    obtain ⟨x, rest, rfl⟩ := exists_block long
    rw [List.length_append, Block.length_bytes] at whole
    rw [eachBlock_append]
    exact .cons x (ih (by omega))

theorem eq_eachBlock (taken : Blockwise f data out) : out = Cipher.eachBlock f data := by
  induction taken with
  | nil => rfl
  | cons x rest ih => rw [eachBlock_append, ih]

theorem length_eq (taken : Blockwise f data out) : out.length = data.length := by
  induction taken with
  | nil => rfl
  | cons x rest ih => simp only [List.length_append, Block.length_bytes, ih]

theorem whole (taken : Blockwise f data out) : blockSize ∣ data.length := by
  induction taken with
  | nil => exact Nat.dvd_zero _
  | cons x rest ih =>
    rw [List.length_append, Block.length_bytes]
    exact Nat.dvd_add (Nat.dvd_refl _) ih

theorem undo (back : ∀ x, g (f x) = x) (taken : Blockwise f data out) : Blockwise g out data := by
  induction taken with
  | nil => exact .nil
  | cons x rest ih =>
    have step := Blockwise.cons (f x) ih
    rwa [back] at step

end Blockwise

/-- The second of two byte strings is the first without the zero bytes at its end. -/
structure Trims (data rest : List UInt8) : Prop where
  zeros : ∃ count, data = rest ++ List.replicate count 0
  last : rest.getLast? ≠ some 0

theorem trimZeros_eq_rdropWhile (data : List UInt8) :
    trimZeros data = data.rdropWhile (· == 0) := rfl

theorem trims_trimZeros (data : List UInt8) : Trims data (trimZeros data) where
  zeros := by
    have dropped : data.rtakeWhile (· == 0) =
        List.replicate (data.rtakeWhile (· == 0)).length 0 := by
      rw [List.eq_replicate_iff]
      exact ⟨rfl, fun b member => by simpa using List.mem_rtakeWhile_imp member⟩
    refine ⟨(data.rtakeWhile (· == 0)).length, ?_⟩
    rw [trimZeros_eq_rdropWhile, ← dropped, List.rdropWhile_append_rtakeWhile]
  last ends := by
    rw [trimZeros_eq_rdropWhile] at ends
    have filled : data.rdropWhile (· == 0) ≠ [] := List.ne_nil_of_mem (List.mem_of_getLast? ends)
    apply List.rdropWhile_last_not (· == (0 : UInt8)) data filled
    simpa using List.getLast_of_getLast?_eq_some ends

namespace Trims

variable {data rest : List UInt8}

theorem eq_trimZeros (trims : Trims data rest) : rest = trimZeros data := by
  obtain ⟨⟨count, rfl⟩, last⟩ := trims
  have stays : rest.rdropWhile (· == 0) = rest := by
    rw [List.rdropWhile_eq_self_iff]
    intro filled zero
    rw [List.getLast?_eq_some_getLast filled] at last
    exact last (congrArg some (by simpa using zero))
  have zeros : ∀ b ∈ (List.replicate count (0 : UInt8)).reverse, (b == 0) = true := by simp
  rw [trimZeros, List.reverse_append, List.dropWhile_append_of_pos zeros]
  exact stays.symm

theorem append (trims : Trims data rest) (count : Nat) :
    Trims (data ++ List.replicate count 0) rest := by
  obtain ⟨⟨zeros, rfl⟩, last⟩ := trims
  refine ⟨⟨zeros + count, ?_⟩, last⟩
  rw [List.append_assoc, List.replicate_append_replicate]

theorem self (last : data.getLast? ≠ some 0) : Trims data data := ⟨⟨0, by simp⟩, last⟩

end Trims

theorem pad_whole (data : List UInt8) : ∃ count < blockSize,
    pad data = data ++ List.replicate count 0 ∧ blockSize ∣ data.length + count := by
  refine ⟨_, Nat.mod_lt _ (by decide), rfl, ?_⟩
  unfold blockSize
  omega

theorem encrypt_blockwise (key data : List UInt8) :
    Blockwise (encryptBlock (roundKeys key)) (pad data) (encrypt key data) := by
  obtain ⟨count, _, padded, blocks, whole⟩ := pad_whole data
  have length : (pad data).length = blockSize * blocks := by
    rw [padded, List.length_append, List.length_replicate, whole]
  exact Blockwise.eachBlock length

theorem decrypt_eq_ok {key data plain : List UInt8} :
    decrypt key data = .ok plain ↔
      ∃ whole, Blockwise (decryptBlock (roundKeys key)) data whole ∧ Trims whole plain := by
  unfold decrypt
  split
  · next odd =>
    constructor
    · nofun
    · rintro ⟨_, taken, _⟩
      exact absurd (Nat.mod_eq_zero_of_dvd taken.whole) odd
  · next even =>
    obtain ⟨blocks, whole⟩ := Nat.dvd_of_mod_eq_zero (not_not.mp even)
    have taken := Blockwise.eachBlock (f := decryptBlock (roundKeys key)) whole
    constructor
    · rintro ⟨⟩
      exact ⟨_, taken, trims_trimZeros _⟩
    · rintro ⟨out, others, trims⟩
      rw [← others.eq_eachBlock, ← trims.eq_trimZeros]

theorem decrypt_eq_error {key data : List UInt8} :
    (∃ failure, decrypt key data = .error failure) ↔ ¬ blockSize ∣ data.length := by
  rw [Nat.dvd_iff_mod_eq_zero]
  unfold decrypt
  split
  · next odd => exact iff_of_true ⟨_, rfl⟩ odd
  · next even => exact iff_of_false nofun even

/-- Decryption undoes encryption. Data are encrypted block by block with fewer zero bytes than a
block behind them, and decrypted they come back without the zero bytes at their end, as they
were if they end in another byte. Only data of whole blocks are decrypted, and what comes out is
each block decrypted in its place, cut at nothing but the zero bytes at the end. -/
theorem decryption_undoes_encryption (key data : List UInt8) :
    (∃ plain, decrypt key (encrypt key data) = .ok plain ∧ Trims data plain ∧
      (data.getLast? ≠ some 0 → plain = data)) ∧
    (∃ count < blockSize, blockSize ∣ data.length + count ∧
      Blockwise (encryptBlock (roundKeys key)) (data ++ List.replicate count 0)
        (encrypt key data)) ∧
    ((∃ failure, decrypt key data = .error failure) ↔ ¬ blockSize ∣ data.length) ∧
    ∀ plain, decrypt key data = .ok plain ↔
      ∃ whole, Blockwise (decryptBlock (roundKeys key)) data whole ∧
        whole.length = data.length ∧ Trims whole plain := by
  obtain ⟨count, few, padded, whole⟩ := pad_whole data
  have sealed := encrypt_blockwise key data
  rw [padded] at sealed
  refine ⟨⟨trimZeros data, ?_, trims_trimZeros data, ?_⟩, ⟨count, few, whole, sealed⟩,
    decrypt_eq_error, ?_⟩
  · have opened := sealed.undo (decryptBlock_encryptBlock (roundKeys key))
    exact decrypt_eq_ok.mpr ⟨_, opened, (trims_trimZeros data).append count⟩
  · intro last
    exact (Trims.self last).eq_trimZeros.symm
  · intro plain
    rw [decrypt_eq_ok]
    constructor
    · rintro ⟨out, taken, trims⟩
      exact ⟨out, taken, taken.length_eq, trims⟩
    · rintro ⟨out, taken, _, trims⟩
      exact ⟨out, taken, trims⟩

/-- Data that end in a byte come back as they were, a block of zero bytes comes back empty, and
a byte after a whole block is refused. -/
theorem decryption_undoes_encryption_ending :
    let key := List.replicate keySize 0x5A
    decrypt key (encrypt key [0, 7]) = .ok [0, 7] ∧
    decrypt key (encrypt key (List.replicate blockSize 0)) = .ok [] ∧
    ∃ failure, decrypt key (List.replicate (blockSize + 1) 0) = .error failure := by
  intro key
  obtain ⟨⟨plain, opened, _, same⟩, _⟩ := decryption_undoes_encryption key [0, 7]
  obtain ⟨⟨empty, opened', trims, _⟩, _⟩ :=
    decryption_undoes_encryption key (List.replicate blockSize 0)
  obtain ⟨_, _, refused, _⟩ := decryption_undoes_encryption key (List.replicate (blockSize + 1) 0)
  rw [same (by decide)] at opened
  rw [trims.eq_trimZeros] at opened'
  exact ⟨opened, opened', refused.mpr (by decide)⟩

end ScriptListing.Cipher
