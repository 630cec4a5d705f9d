import Zolana.Hasher.HashChain

/-!
# Chains folded from the right

`create_right_hash_chain_from_slice`, and the chains of `zero_suffix_hash_chain.rs` that absorb three
elements for each call. The fold starts at the last element, so the part of it over trailing zeros does
not depend on what stands before them and comes from a table.
-/

namespace Zolana

/-- The fold of `create_right_hash_chain_from_slice` over the elements before the last, nearest first. -/
def absorbRight (hashv : Hashv) (hashChain : Bytes32) : List Bytes32 → Except HasherError Bytes32
  | [] => .ok hashChain
  | input :: inputs => do
      let hashChain ← hashv [input, hashChain]
      absorbRight hashv hashChain inputs

def createRightHashChain (hashv : Hashv) (inputs : List Bytes32) : Except HasherError Bytes32 :=
  match inputs.reverse with
  | [] => .ok 0
  | last :: leading => absorbRight hashv last leading

/-- The loop of `create_right_hash_chain_4_from_seed` over the leading elements, nearest first: groups of
three from the right, and the leftmost group may be short. -/
def absorbRightGroups (hashv : Hashv) (hashChain : Bytes32) : List Bytes32 → Except HasherError Bytes32
  | [] => .ok hashChain
  | [g0] => hashv [g0, 0, 0, hashChain]
  | [g1, g0] => hashv [g0, g1, 0, hashChain]
  | g2 :: g1 :: g0 :: inputs => do
      let hashChain ← hashv [g0, g1, g2, hashChain]
      absorbRightGroups hashv hashChain inputs

def createRightHashChain4 (hashv : Hashv) (inputs : List Bytes32) : Except HasherError Bytes32 :=
  match inputs.reverse with
  | [] => .ok 0
  | last :: leading => absorbRightGroups hashv last leading

/-! ### Zero suffixes -/

def zeroSuffixChainMaxWidth : Nat := 54

def zeroSuffixGroups : Nat := 18

/-- `ZERO_SUFFIX_CHAINS`: entry `k` is the fold over `1 + 3 * k` zeros. -/
def zeroSuffixChains : List Bytes32 := [
  0x0000000000000000000000000000000000000000000000000000000000000000#256,
  0x0532fd436e19c70e51209694d9c215250937921b8b79060488c1206db73e9946#256,
  0x222cfa7d71f774d4487b280c0cc08e3cd2b9a86ef55ead0c0b795c3ff18b1218#256,
  0x05ffd3791fc65890b6cdd82c6ca36e3b897c1996cab034019ff01a683d462054#256,
  0x0ba4c4ef2b93cc95e67e42deedfc2d44128cc7824ab372524da35d9058abb8df#256,
  0x2b9fb731be7da203d67475eab641459910393a6588c05a47ff03d8d1fa2289e1#256,
  0x1d953d02fdb11e8940ceb2607bf2ee3b732cf67faa2f474f064092d2ef2e9a75#256,
  0x20ef7efce9a1c51a4bf201e1780795093ee31f2a6c327da3d0cfc0e72e1595c3#256,
  0x2d6fd572bf9ce28a14fc9332b18a012d61fb2d04dac22de154324ed3af4153c3#256,
  0x0fd2857c4e79f293f2b6e280d44b53533c0f235c46fd768d450bff196db0c481#256,
  0x1b73406f050ea1f202cba6ef9c0023f019b2df15194457ed6ea6ffac3a693809#256,
  0x0ac24d49d1d471af6592906ae02264726efbdc14036054ea6512b652fe251913#256,
  0x03a463c6bcdae725457ed4280e8a96c67dfeee0857568da813766235b5de031a#256,
  0x13a4d31c87628aaf35500bddff64129d4b6f37944059d3938ead6e6c866a9184#256,
  0x26072fda7ccca890ccfff2a314b9a2ada24f5122c611e153f9d94ca0665070ab#256,
  0x00ed391a98c0bcbfb2c3d0e07be56e8059c2848a2935bdba0b1fd56704533208#256,
  0x1a323c8c2b0e9395a3705dd8b4d8cee34f8eebd5fef167237a2a06eab6a87019#256,
  0x0103172d6deb6743eebd5b0e1bbae0e2eaefa55d74f757c94f393803cf4e027d#256,
  0x05711f600e6a01d2fd02ffdb11a38887f298a04e650dad6cb7b3748a0ea3bb11#256]

/-- The groups of zeros that the fold would visit first. -/
def zeroGroups : List Bytes32 → Nat
  | [] => 0
  | [g0] => if g0 = 0 then 1 else 0
  | [g1, g0] => if g0 = 0 ∧ g1 = 0 then 1 else 0
  | g2 :: g1 :: g0 :: inputs => if g0 = 0 ∧ g1 = 0 ∧ g2 = 0 then zeroGroups inputs + 1 else 0

def createZeroSuffixRightHashChain4 (hashv : Hashv) (values : List Bytes32) : Except HasherError Bytes32 :=
  match values.reverse with
  | [] => .ok 0
  | last :: leading =>
    if last ≠ 0 then
      absorbRightGroups hashv last leading
    else
      let skipped := zeroGroups leading
      match zeroSuffixChains[skipped]? with
      | none => .error (.invalidInputLength zeroSuffixGroups skipped)
      | some seed => absorbRightGroups hashv seed (leading.drop (3 * skipped))

/-- The fold over `width` slots: the sent values, and zeros behind them. -/
def createPaddedRightHashChain4 (hashv : Hashv) (sent : List Bytes32) (width : Nat) :
    Except HasherError Bytes32 :=
  if zeroSuffixChainMaxWidth < width then
    .error (.invalidInputLength zeroSuffixChainMaxWidth width)
  else if width < sent.length then
    .error (.invalidInputLength width (width + 1))
  else
    createZeroSuffixRightHashChain4 hashv (sent ++ List.replicate (width - sent.length) 0)

/-- The table holds what it was generated from: one more group of zeros for each entry. -/
def Hashv.DerivesZeroSuffixChains (hashv : Hashv) : Prop :=
  ∀ k seed next, zeroSuffixChains[k]? = some seed → zeroSuffixChains[k + 1]? = some next →
    hashv [0, 0, 0, seed] = .ok next

end Zolana
