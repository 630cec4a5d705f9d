import Mathlib.Data.List.GetD
import Zolana.Hasher.HashChain

/-!
# Roots of empty trees

`zero_bytes/poseidon.rs`: the generated table of the roots of the empty trees of height 0 to 40.
-/

namespace Zolana

def zeroBytes : List Bytes32 := [
  0x0000000000000000000000000000000000000000000000000000000000000000#256,
  0x2098f5fb9e239eab3ceac3f27b81e481dc3124d55ffed523a839ee8446b64864#256,
  0x1069673dcdb12263df301a6ff584a7ec261a44cb9dc68df067a4774460b1f1e1#256,
  0x18f43331537ee2af2e3d758d50f72106467c6eea50371dd528d57eb2b856d238#256,
  0x07f9d837cb17b0d36320ffe93ba52345f1b728571a568265caac97559dbc952a#256,
  0x2b94cf5e8746b3f5c9631f4c5df32907a699c58c94b2ad4d7b5cec1639183f55#256,
  0x2dee93c5a666459646ea7d22cca9e1bcfed71e6951b953611d11dda32ea09d78#256,
  0x078295e5a22b84e982cf601eb639597b8b0515a88cb5ac7fa8a4aabe3c87349d#256,
  0x2fa5e5f18f6027a6501bec864564472a616b2e274a41211a444cbe3a99f3cc61#256,
  0x0e884376d0d8fd21ecb780389e941f66e45e7acce3e228ab3e2156a614fcd747#256,
  0x1b7201da72494f1e28717ad1a52eb469f95892f957713533de6175e5da190af2#256,
  0x1f8d8822725e36385200c0b201249819a6e6e1e4650808b5bebc6bface7d7636#256,
  0x2c5d82f66c914bafb9701589ba8cfcfb6162b0a12acf88a8d0879a0471b5f85a#256,
  0x14c54148a0940bb820957f5adf3fa1134ef5c4aaa113f4646458f270e0bfbfd0#256,
  0x190d33b12f986f961e10c0ee44d8b9af11be25588cad89d416118e4bf4ebe80c#256,
  0x22f98aa9ce704152ac17354914ad73ed1167ae6596af510aa5b3649325e06c92#256,
  0x2a7c7c9b6ce5880b9f6f228d72bf6a575a526f29c66ecceef8b753d38bba7323#256,
  0x2e8186e558698ec1c67af9c14d463ffc470043c9c2988b954d75dd643f36b992#256,
  0x0f57c5571e9a4eab49e2c8cf050dae948aef6ead647392273546249d1c1ff10f#256,
  0x1830ee67b5fb554ad5f63d4388800e1cfe78e310697d46e43c9ce36134f72cca#256,
  0x2134e76ac5d21aab186c2be1dd8f84ee880a1e46eaf712f9d371b6df22191f3e#256,
  0x19df90ec844ebc4ffeebd866f33859b0c051d8c958ee3aa88f8f8df3db91a5b1#256,
  0x18cca2a66b5c0787981e69aefd84852d74af0e93ef4912b4648c05f722efe52b#256,
  0x2388909415230d1b4d1304d2d54f473a628338f2efad83fadf05644549d2538d#256,
  0x27171fb4a97b6cc0e9e8f543b5294de866a2af2c9c8d0b1d96e673e4529ed540#256,
  0x2ff6650540f629fd5711a0bc74fc0d28dcb230b9392583e5f8d59696dde6ae21#256,
  0x120c58f143d491e95902f7f5277778a2e0ad5168f6add75669932630ce611518#256,
  0x1f21feb70d3f21b07bf853d5e5db03071ec495a0a565a21da2d665d279483795#256,
  0x24be905fa71335e14c638cc0f66a8623a826e768068a9e968bb1a1dde18a72d2#256,
  0x0f8666b62ed17491c50ceadead57d4cd597ef3821d65c328744c74e553dac26d#256,
  0x0918d46bf52d98b034413f4a1a1c41594e7a7a3f6ae08cb43d1a2a230e1959ef#256,
  0x1bbeb01b4c479ecde76917645e404dfa2e26f90d0afc5a65128513ad375c5ff2#256,
  0x2f68a1c58e257e42a17a6c61dff5551ed560b9922ab119d5ac8e184c9734ead9#256,
  0x1102d2f8db05e4af4842e8ad3d85ed45eb28447eb7212235a2281d5ab5d81d11#256,
  0x2af8c1caf560dd41f997a01ff895b21e0d1fedb786e7cad29901e12310638bdc#256,
  0x011d923bc14b5a13972ac7dfe6420b15b0425c98ba80edaf5e0291b4a265e0a5#256,
  0x224ccc25981822d4c5b6fc199fbc74828488741c7151a6159ecfaab7c2a8bac9#256,
  0x27e839f6f555feae824ab433e34b1c0e64ce5c75962dffc13c68571d6b4a610e#256,
  0x2aba203fbd04bfabc86b4d50d6abadc3c24f37efa00e700ef4d17764c2ccd57c#256,
  0x11eff4f60c2cdcc548c1e0770c3d64b49c01e34da4af29cfea575a19befa669c#256,
  0x1334fa4b552f00ef403361c935c1abcf896851003c40daa93bb0fd0a0bb9a881#256]

@[simp] theorem length_zeroBytes : zeroBytes.length = 41 := rfl

theorem zeroBytes_canonical : ∀ zero ∈ zeroBytes, isCanonicalBn254ScalarBe zero = true :=
  List.all_eq_true.mp (by decide +kernel)

def zeroByte (level : Nat) : Bytes32 := zeroBytes.getD level 0

theorem drop_zeroBytes {level : Nat} (h : level ≤ 40) :
    zeroBytes.drop level = zeroByte level :: zeroBytes.drop (level + 1) := by
  have hlt : level < zeroBytes.length := by
    rw [length_zeroBytes]
    omega
  rw [List.drop_eq_getElem_cons hlt, zeroByte, List.getD_eq_getElem _ _ hlt]

theorem zeroByte_canonical (level : Nat) : isCanonicalBn254ScalarBe (zeroByte level) = true := by
  by_cases hlt : level < zeroBytes.length
  · rw [zeroByte, List.getD_eq_getElem _ _ hlt]
    exact zeroBytes_canonical _ (List.getElem_mem hlt)
  · rw [zeroByte, List.getD_eq_default _ _ (by omega)]
    exact isCanonicalBn254ScalarBe_zero

theorem getElem?_zeroBytes {level : Nat} (h : level ≤ 40) : zeroBytes[level]? = some (zeroByte level) := by
  have hlt : level < zeroBytes.length := by
    rw [length_zeroBytes]
    omega
  rw [List.getElem?_eq_getElem hlt, zeroByte, List.getD_eq_getElem _ _ hlt]

/-- The table holds what it was generated from: each entry is the hash of two copies of the one
before. -/
def Hashv.DerivesZeroBytes (hashv : Hashv) : Prop :=
  ∀ level zero next, zeroBytes[level]? = some zero → zeroBytes[level + 1]? = some next →
    hashv [zero, zero] = .ok next

end Zolana
