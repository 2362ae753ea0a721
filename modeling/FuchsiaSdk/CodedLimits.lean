import FuchsiaSdk.CodedValidate

/-! The validator counts handles in a `uint32_t`, also those of unknown envelopes. The count is
exact as long as it cannot wrap, which takes messages of half a megabyte. -/
namespace FuchsiaSdk.CodedLimits
open Memory WireFormat CodingTable CodedDecoder CodedExtent
open CodedValidate (handleCount_le lockstep_counts validating)
open CodedTiling (anyHandle)

/-- The handles that were visited are those that the message came with. -/
def Exact (dec : Decoder) (numHandles : Nat) : Prop :=
  handleCount dec.visits = numHandles ∧
    ∀ visits, visits <+: dec.visits → handleCount visits ≤ numHandles

def union : CodedType := .xunion false false false .nil

end FuchsiaSdk.CodedLimits
