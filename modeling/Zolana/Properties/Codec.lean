import Zolana.Proof.Decoders

/-!
# The codecs of the instructions agree

What an owned decoder accepts is the one encoding of the value it gives, and a borrowed decoder gives the
same value. `TransactIxData::serialize` checks the interface transfers before it writes, which no decoder
does.
-/

namespace Zolana

open Codec

section Owned

variable {α : Type}

/-- An owned decoder accepts one encoding of a value, which `serialize` gives back where it writes. -/
structure OwnedCodec (deserialize : List UInt8 → Option α) (serialize : α → Option (List UInt8))
    (Writable : α → Prop) : Prop where
  serialize_eq : ∀ data ix, deserialize data = some ix → Writable ix → serialize ix = some data
  serialize_eq_none : ∀ data ix, deserialize data = some ix → ¬ Writable ix → serialize ix = none
  encoding_unique : ∀ data data' ix, deserialize data = some ix → deserialize data' = some ix → data = data'
  trailing_rejected : ∀ data ix extra, deserialize data = some ix → extra ≠ [] →
    deserialize (data ++ extra) = none

theorem ownedCodec_of_reads {reader : Reader α} {write : α → List UInt8}
    {serialize : α → Option (List UInt8)} {Writable : α → Prop} (h : Reads reader write)
    (hserialize : ∀ bytes ix rest, reader.run bytes = some (ix, rest) →
      (Writable ix → serialize ix = some (write ix)) ∧ (¬ Writable ix → serialize ix = none)) :
    OwnedCodec (whole reader) serialize Writable where
  serialize_eq := by
    intro data ix hdecode hwritable
    rw [(hserialize _ _ _ (whole_eq_some.mp hdecode)).1 hwritable, h.eq_write hdecode]
  serialize_eq_none := by
    intro data ix hdecode hwritable
    exact (hserialize _ _ _ (whole_eq_some.mp hdecode)).2 hwritable
  encoding_unique := by
    intro data data' ix hdecode hdecode'
    rw [h.eq_write hdecode, h.eq_write hdecode']
  trailing_rejected := by
    intro data ix extra hdecode hextra
    exact h.whole_append hdecode hextra

theorem ownedCodec_of_exact {reader : Reader α} {write : α → List UInt8} {Fits : α → Prop}
    {serialize : α → Option (List UInt8)} (h : Exact reader write Fits)
    (hserialize : ∀ ix, Fits ix → serialize ix = some (write ix)) : OwnedCodec (whole reader) serialize fun _ => True :=
  ownedCodec_of_reads h.reads fun _ ix _ hread =>
    ⟨fun _ => hserialize ix (h.mp hread).1, fun hfalse => absurd trivial hfalse⟩

/-- A borrowed decoder of merge data takes from the owned one, of the values with a supported shape. -/
structure BorrowedCodec (deserialize fromBytes : List UInt8 → Option α) (Supported : α → Prop) : Prop where
  accepts_iff : ∀ data ix, deserialize data = some ix → ((fromBytes data).isSome ↔ Supported ix)
  agrees : ∀ data ix view, deserialize data = some ix → fromBytes data = some view → view = ix
  accepted : ∀ data view, fromBytes data = some view →
    Supported view ∧ ∃ encoding extra, data = encoding ++ extra ∧ deserialize encoding = some view

section Borrowed

variable {reader : Reader α} {write : α → List UInt8} {fromBytes : List UInt8 → Option α} {Supported : α → Prop}
  (h : Reads reader write) (hfromBytes : ∀ {data view}, fromBytes data = some view ↔
    ∃ rest, reader.run data = some (view, rest) ∧ Supported view)

include h hfromBytes

theorem borrowedCodec_of_reads : BorrowedCodec (whole reader) fromBytes Supported where
  accepts_iff := by
    intro data ix hdecode
    have hread := whole_eq_some.mp hdecode
    rw [Option.isSome_iff_exists]
    constructor
    · rintro ⟨view, hview⟩
      obtain ⟨rest, hread', hsupported⟩ := hfromBytes.mp hview
      rw [hread] at hread'
      obtain ⟨rfl, rfl⟩ := Prod.mk.inj (Option.some.inj hread')
      exact hsupported
    · intro hsupported
      exact ⟨ix, hfromBytes.mpr ⟨[], hread, hsupported⟩⟩
  agrees := by
    intro data ix view hdecode hview
    obtain ⟨rest, hread, _⟩ := hfromBytes.mp hview
    rw [whole_eq_some.mp hdecode] at hread
    exact (Prod.mk.inj (Option.some.inj hread)).1.symm
  accepted := by
    intro data view hview
    obtain ⟨rest, hread, hsupported⟩ := hfromBytes.mp hview
    obtain ⟨hdata, hwhole⟩ := h.whole_write hread
    exact ⟨hsupported, write view, rest, hdata, hwhole⟩

theorem fromBytes_append {data : List UInt8} {ix : α} (hdecode : whole reader data = some ix)
    (hsupported : Supported ix) (extra : List UInt8) : fromBytes (data ++ extra) = some ix := by
  have hread := (h (whole_eq_some.mp hdecode)).2 extra
  rw [← h.eq_write hdecode] at hread
  exact hfromBytes.mpr ⟨extra, hread, hsupported⟩

end Borrowed

end Owned

theorem transactCodec : OwnedCodec TransactIxData.deserialize TransactIxData.serialize
    fun ix => validateInterfaceTransfers ix.interfaceTransfers = .ok () := by
  refine ownedCodec_of_reads exact_transactIxData.reads fun bytes ix rest hread => ⟨?_, ?_⟩
  · intro hvalid
    rw [TransactIxData.serialize, hvalid]
    exact if_pos (exact_transactIxData.mp hread).1.1
  · intro hinvalid
    unfold TransactIxData.serialize
    split
    case h_1 => rfl
    case h_2 hvalid => exact absurd hvalid hinvalid

theorem mergeCodec : OwnedCodec MergeTransactIxData.deserialize MergeTransactIxData.serialize fun _ => True :=
  ownedCodec_of_exact exact_mergeTransactIxData fun _ hfits => if_pos hfits

theorem mergeRingCodec : OwnedCodec MergeRingIxData.deserialize MergeRingIxData.serialize fun _ => True :=
  ownedCodec_of_exact exact_mergeRingIxData fun _ hfits => if_pos hfits

theorem MergeTransactIxDataRef.fromBytes_eq_some {data : List UInt8} {view : MergeTransactIxData} :
    fromBytes data = some view ↔ ∃ rest, MergeTransactIxData.read.run data = some (view, rest) ∧
      (mergeCircuitWidth view.nullifiers.length).isSome := by
  unfold fromBytes MergeTransactIxData.validShape
  split
  case h_1 parsed rest hread => grind
  case h_2 hread => simp [hread]

theorem MergeRingIxDataRef.fromBytes_eq_some {data : List UInt8} {view : MergeRingIxData} :
    fromBytes data = some view ↔ ∃ rest, MergeRingIxData.read.run data = some (view, rest) ∧
      (mergeCircuitWidth view.merge.nullifiers.length).isSome := by
  unfold fromBytes MergeTransactIxData.validShape
  split
  case h_1 parsed rest hread => grind
  case h_2 hread => simp [hread]

/-- The borrowed transact decoder, which the program runs to find the prefix, is the owned one; the borrowed
merge decoders take the supported shapes of what the owned ones take. Every decoded value is written back
as it was read, a transact when its interface transfers pass their check. -/
theorem instruction_codec_agreement :
    (∀ data, TransactIxDataRef.fromBytes data = TransactIxData.deserialize data ∧
      (parseWithExternalDataPrefix data).map Prod.fst = TransactIxData.deserialize data) ∧
    OwnedCodec TransactIxData.deserialize TransactIxData.serialize
      (fun ix => validateInterfaceTransfers ix.interfaceTransfers = .ok ()) ∧
    OwnedCodec MergeTransactIxData.deserialize MergeTransactIxData.serialize (fun _ => True) ∧
    BorrowedCodec MergeTransactIxData.deserialize MergeTransactIxDataRef.fromBytes
      (fun ix => (mergeCircuitWidth ix.nullifiers.length).isSome) ∧
    OwnedCodec MergeRingIxData.deserialize MergeRingIxData.serialize (fun _ => True) ∧
    BorrowedCodec MergeRingIxData.deserialize MergeRingIxDataRef.fromBytes
      (fun ix => (mergeCircuitWidth ix.merge.nullifiers.length).isSome) := by
  have hborrowed (data : List UInt8) : TransactIxDataRef.fromBytes data = TransactIxData.deserialize data := by
    rw [TransactIxDataRef.fromBytes, TransactIxDataRef.read_eq, TransactIxData.deserialize]
  refine ⟨fun data => ⟨hborrowed data, ?_⟩, transactCodec, mergeCodec,
    borrowedCodec_of_reads exact_mergeTransactIxData.reads MergeTransactIxDataRef.fromBytes_eq_some, mergeRingCodec,
    borrowedCodec_of_reads exact_mergeRingIxData.reads MergeRingIxDataRef.fromBytes_eq_some⟩
  rw [map_fst_parseWithExternalDataPrefix, hborrowed]

/-- The borrowed merge decoders leave unread what the owned ones refuse. -/
theorem borrowed_merge_decoders_take_a_trailing_byte (byte : UInt8) :
    (∀ data ix, MergeTransactIxData.deserialize data = some ix →
      (mergeCircuitWidth ix.nullifiers.length).isSome →
      MergeTransactIxDataRef.fromBytes (data ++ [byte]) = some ix ∧
        MergeTransactIxData.deserialize (data ++ [byte]) = none) ∧
    ∀ data ix, MergeRingIxData.deserialize data = some ix →
      (mergeCircuitWidth ix.merge.nullifiers.length).isSome →
      MergeRingIxDataRef.fromBytes (data ++ [byte]) = some ix ∧ MergeRingIxData.deserialize (data ++ [byte]) = none := by
  constructor
  · intro data ix hdecode hsupported
    exact ⟨fromBytes_append exact_mergeTransactIxData.reads MergeTransactIxDataRef.fromBytes_eq_some hdecode
        hsupported [byte],
      mergeCodec.trailing_rejected data ix [byte] hdecode (List.cons_ne_nil _ _)⟩
  · intro data ix hdecode hsupported
    exact ⟨fromBytes_append exact_mergeRingIxData.reads MergeRingIxDataRef.fromBytes_eq_some hdecode hsupported [byte],
      mergeRingCodec.trailing_rejected data ix [byte] hdecode (List.cons_ne_nil _ _)⟩

/-- A transact whose only leg moves nothing. -/
def zeroTransferIx : TransactIxData where
  expiryUnixTs := 0
  txViewingPk := 0
  salt := 0
  interfaceTransfers := [.solDeposit 0]
  dataHash := none
  ringDataHash := none
  outputs := []
  messages := []
  privateTxHash := 0
  circuit := .confidentialSigner ⟨1, 2, 3⟩
  proof := ⟨0, 0, 0⟩
  inputs := []
  treeContexts := []

/-- Both decoders accept a leg of no amount, and `serialize` does not give its bytes back. -/
theorem zero_transfer_decoded_not_serialized :
    TransactIxDataRef.fromBytes zeroTransferIx.write = some zeroTransferIx ∧
      TransactIxData.deserialize zeroTransferIx.write = some zeroTransferIx ∧
      zeroTransferIx.serialize ≠ some zeroTransferIx.write := by
  decide +kernel

end Zolana
