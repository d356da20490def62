import TensorConcat.Conformance.Defect
import TensorConcat.Conformance.Refusals
import TensorConcat.Conformance.Values

/-!
# Scenarios

The checks by name. Running one against a backend gives a verdict and the calls the
backend has received by then.
-/

namespace TensorConcat.Conformance

/-- What of a scenario's requests was drawn at random. -/
inductive Drawn
  | nothing
  | values
  | requests
deriving Repr, DecidableEq

structure Scenario where
  name : String
  check : Backend → Check Unit
  drawn : Drawn := .nothing

structure Verdict where
  passed : Bool
  calls : List Call

namespace Scenario

def all : List Scenario :=
  [⟨"horizontal_concat_2x3_2x4", joinsTwoAlongRows, .nothing⟩,
    ⟨"axis_extent_is_sum_of_inputs", addsExtents, .values⟩,
    ⟨"skipped_inputs_are_ignored", ignoresSkipped, .nothing⟩,
    ⟨"all_skipped_inputs_leave_output_alone", leavesOutputAlone, .nothing⟩,
    ⟨"rejects_empty_input_list", refusesNoInputs, .nothing⟩,
    ⟨"shape_mismatch_leaves_output_untouched", refusesShapes, .nothing⟩,
    ⟨"rejects_output_aliasing_an_input", refusesAliasing, .nothing⟩,
    ⟨"rejects_out_of_range_dims", refusesAxes, .nothing⟩,
    ⟨"negative_dim_wraps_at_dispatch", countsAxesFromTheEnd, .nothing⟩,
    ⟨"concat_into_reuses_sized_output", reusesOutput, .nothing⟩,
    ⟨"concat_spanning_multiple_batches", spansTwoBatches, .nothing⟩,
    ⟨"uneven_inputs_across_three_batches", spansThreeBatches, .nothing⟩,
    ⟨"channels_last_inputs_match_row_major", keepsFormat, .nothing⟩,
    ⟨"permuted_inputs_are_copied_logically", followsPermutedInputs, .nothing⟩,
    ⟨"mixed_dtypes_promote", promotesTypes, .nothing⟩,
    ⟨"rejects_uncastable_output", refusesNarrowOutput, .nothing⟩,
    ⟨"narrow_types_roundtrip", keepsNarrowTypes, .nothing⟩,
    ⟨"matches_reference_backend", agreesWithReference, .requests⟩]

def ofName? (text : String) : Option Scenario := all.find? (·.name == text)

def run (s : Scenario) (b : Backend) (m : Machine) : Verdict :=
  let (passed, m) := OptionT.run (s.check b.observed) |>.run m
  ⟨passed.isSome, m.calls.toList⟩

end Scenario

end TensorConcat.Conformance
