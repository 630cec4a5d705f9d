import Zolana.Interface.TransactData

/-!
# What the parser takes is what the encoder writes

One lemma for each type of the prefix, in the order of the types, and from them that the prefix a
transact is parsed with is the encoding of the fields before `private_tx_hash`.
-/

namespace Zolana

open Codec

theorem exact_interfaceTransfer : Exact InterfaceTransfer.read InterfaceTransfer.write fun _ => True := by
  refine .tagged (by rintro (_ | _ | _ | _) <;> simp [InterfaceTransfer.write, writeByte]) fun tag => ?_
  -- a SOL leg ends with its amount, an SPL leg has one more byte
  by_cases hsolDeposit : tag = 0
  · simp only [if_pos hsolDeposit]
    exact exact_u64.one (fun _ => rfl) (by rintro (_ | _ | _ | _) <;> simp [InterfaceTransfer.write, writeByte, hsolDeposit])
  by_cases hsolWithdrawal : tag = 1
  · simp only [if_neg hsolDeposit, if_pos hsolWithdrawal]
    exact exact_u64.one (fun _ => rfl)
      (by rintro (_ | _ | _ | _) <;> simp [InterfaceTransfer.write, writeByte, hsolWithdrawal])
  by_cases hsplDeposit : tag = 2
  · simp only [if_neg hsolDeposit, if_neg hsolWithdrawal, if_pos hsplDeposit]
    exact exact_u64.two exact_byte (fun _ _ => rfl)
      (by rintro (_ | _ | _ | _) <;> simp [InterfaceTransfer.write, writeByte, hsplDeposit])
  by_cases hsplWithdrawal : tag = 3
  · simp only [if_neg hsolDeposit, if_neg hsolWithdrawal, if_neg hsplDeposit, if_pos hsplWithdrawal]
    exact exact_u64.two exact_byte (fun _ _ => rfl)
      (by rintro (_ | _ | _ | _) <;> simp [InterfaceTransfer.write, writeByte, hsplWithdrawal])
  simp only [if_neg hsolDeposit, if_neg hsolWithdrawal, if_neg hsplDeposit, if_neg hsplWithdrawal]
  intro bytes transfer rest
  refine iff_of_false (fun hread => ?_) ?_
  · obtain ⟨_, _, _, hfailure⟩ := run_bind_eq_some.mp hread
    cases hfailure
  · cases transfer <;> simp [InterfaceTransfer.write, writeByte, eq_comm, *]

theorem exact_ownerTag : Exact OwnerTag.read OwnerTag.write fun _ => True := by
  refine .tagged (by rintro (_ | _) <;> simp [OwnerTag.write, writeByte]) fun tag => ?_
  split_ifs with hinline haccount
  · exact exact_bytes32.one (fun _ => rfl) (by rintro (_ | _) <;> simp [OwnerTag.write, writeByte, hinline])
  · exact exact_byte.one (fun _ => rfl) (by rintro (_ | _) <;> simp [OwnerTag.write, writeByte, haccount])
  · exact exact_failure (by rintro (_ | _) <;> simp [OwnerTag.write, writeByte, eq_comm, hinline, haccount])

theorem exact_transactOutput : Exact TransactOutput.read TransactOutput.write
    fun output => ∀ data ∈ output.data, data.length < 256 ^ 2 := by
  refine (exact_bytes32.field TransactOutput.utxoHash fun _ => exact_ownerTag.field TransactOutput.ownerTag fun _ =>
    (exact_option (exact_vec_byte 2)).field TransactOutput.data fun _ => .done ?_).record ?_ ?_
  · rintro ⟨⟩
    simp [and_assoc]
  · simp [TransactOutput.write]
  · simp

theorem exact_messageData : Exact MessageData.read MessageData.write fun message => message.data.length < 256 ^ 2 := by
  refine (exact_bytes32.field MessageData.viewTag fun _ => (exact_vec_byte 2).field MessageData.data fun _ =>
    .done ?_).record ?_ ?_
  · rintro ⟨⟩
    simp
  · simp [MessageData.write]
  · simp

theorem exact_externalData : Exact ExternalData.read ExternalData.write fun fields =>
    fields.interfaceTransfers.length < 256 ^ 1 ∧
      (fields.outputs.length < 256 ^ 1 ∧ ∀ output ∈ fields.outputs, ∀ data ∈ output.data, data.length < 256 ^ 2) ∧
      fields.messages.length < 256 ^ 1 ∧ ∀ message ∈ fields.messages, message.data.length < 256 ^ 2 := by
  refine (exact_u64.field ExternalData.expiryUnixTs fun _ =>
    (exact_array 33).field ExternalData.txViewingPk fun _ =>
    (exact_array 16).field ExternalData.salt fun _ =>
    (exact_vec exact_interfaceTransfer 1).field ExternalData.interfaceTransfers fun _ =>
    (exact_option exact_bytes32).field ExternalData.dataHash fun _ =>
    (exact_option exact_bytes32).field ExternalData.ringDataHash fun _ =>
    (exact_vec exact_transactOutput 1).field ExternalData.outputs fun _ =>
    (exact_vec exact_messageData 1).field ExternalData.messages fun _ => .done ?_).record ?_ ?_
  · rintro ⟨⟩
    simp [and_assoc]
  · simp [ExternalData.write]
  · simp

/-- The prefix is the encoding of the fields before `private_tx_hash`, which were read off the data. -/
theorem parseWithExternalDataPrefix_eq_some {data externalDataPrefix : List UInt8} {ix : TransactIxData}
    (h : parseWithExternalDataPrefix data = some (ix, externalDataPrefix)) :
    externalDataPrefix = ix.toExternalData.write ∧
      ∃ rest, ExternalData.read.run data = some (ix.toExternalData, writeBytes32 ix.privateTxHash ++ rest) := by
  obtain ⟨⟨parsed, left⟩, hwhole, hpure⟩ := Option.bind_eq_some_iff.mp h
  obtain ⟨rfl, rfl⟩ := Prod.mk.inj (Option.some.inj hpure)
  obtain ⟨fields, behind, hfields, h₁⟩ := run_bind_eq_some.mp (whole_eq_some.mp hwhole)
  obtain ⟨remaining, _, hget, h₂⟩ := run_bind_eq_some.mp h₁
  obtain ⟨privateTxHash, behindHash, hprivateTxHash, h₃⟩ := run_bind_eq_some.mp h₂
  obtain ⟨circuit, _, _, h₄⟩ := run_bind_eq_some.mp h₃
  obtain ⟨proof, _, _, h₅⟩ := run_bind_eq_some.mp h₄
  obtain ⟨inputs, _, _, h₆⟩ := run_bind_eq_some.mp h₅
  obtain ⟨treeContexts, _, _, h₇⟩ := run_bind_eq_some.mp h₆
  obtain ⟨hresult, _⟩ := run_pure_eq_some.mp h₇
  obtain ⟨rfl, rfl⟩ := Prod.mk.inj hresult
  obtain ⟨rfl, rfl⟩ := Prod.mk.inj (Option.some.inj hget)
  obtain ⟨-, rfl⟩ := exact_bytes32.mp hprivateTxHash
  refine ⟨?_, behindHash, hfields⟩
  obtain ⟨-, rfl⟩ := exact_externalData.mp hfields
  rw [List.length_append, Nat.add_sub_cancel, List.take_left' rfl]

end Zolana
