import JsonSelection.Proofs.Sample.Repetition
import JsonSelection.Proofs.Shape

/-!
# Fingerprints of arrays that repeat

An array whose elements are given several times over is mixed if the array is,
and the same value stands for its elements. So the length of an array does not
show in its fingerprint, as long as all elements are looked at
(`Shape.fingerprint_of_copies`).

The work is done in `Proofs/Sample/Repetition`, where copies of objects are
merged. What is left is to go from the merged objects to their shapes.
-/

set_option autoImplicit false

namespace JsonSelection

open Sample (copies mergeAt)

namespace Shape

section Copies

variable {limits : Limits} {levels count : Nat} {items : List Json} (hcount : 0 < count)
  (hsample : ((count * items.length : Nat) : Int) ≤ limits.sampleSize)

include hcount hsample

theorem isMixed_copies : Sample.isMixed limits (copies count items) =
    Sample.isMixed limits items := by
  rw [Sample.isMixed, Sample.isMixed, Sample.ofItems_copies hsample,
    Sample.ofItems_of_copies hcount hsample, Sample.present, Sample.present,
    Sample.filter_copies, Sample.kindsSeen_copies hcount]

theorem representative_copies (hformed : ∀ item ∈ items, item.WellFormed) :
    representative limits levels (copies count items) = representative limits levels items := by
  rw [representative, representative, Sample.mergeItems_copies hcount hsample hformed,
    Sample.headD_copies hcount]

theorem ofJson_copies (hformed : ∀ item ∈ items, item.WellFormed) :
    ofJson limits levels (.arr (copies count items)) = ofJson limits levels (.arr items) := by
  cases levels with
  | zero => rfl
  | succ levels =>
      by_cases hitems : items = []
      · rw [hitems, Sample.copies_nil]
      · have hcopies : copies count items ≠ [] := by
          obtain ⟨others, hothers⟩ := Sample.exists_copies hcount items
          rw [hothers]
          exact fun hnil => hitems (List.append_eq_nil_iff.mp hnil).1
        rw [ofJson_arr hcopies, ofJson_arr hitems, isMixed_copies hcount hsample,
          representative_copies hcount hsample hformed]

end Copies

/-- Objects several times over are merged to the same object with the same
conflicts, and arrays whose elements are given several times over have one
fingerprint, as long as all elements are looked at. -/
theorem fingerprint_of_copies (limits : Limits) (depth : Int) {count : Nat} (hcount : 0 < count) :
    (∀ objects : List (Entries Json), (∀ entries ∈ objects, (Json.obj entries).WellFormed) →
      mergeAt limits depth (copies count objects) = mergeAt limits depth objects) ∧
    ∀ items : List Json, (∀ item ∈ items, item.WellFormed) →
      ((count * items.length : Nat) : Int) ≤ limits.sampleSize →
      fingerprint limits depth (.arr (copies count items)) = fingerprint limits depth
        (.arr items) := by
  constructor
  · intro objects hformed
    exact Sample.merge_copies hcount hformed
  · intro items hformed hsample
    exact congrArg text (ofJson_copies hcount hsample hformed)

/-- Objects with a lone object under `a` and values that split under `d`. -/
def unevenObjects : List (Entries Json) :=
  [[("a", .obj [("b", .int 1), ("c", .arr [])]), ("d", .null)], [("d", .int 1), ("a", .null)],
    [("d", .str "x")]]

/-- An object between `null`s, with an array and an object in it. -/
def unevenItems : List Json :=
  [.null, .obj [("b", .arr [.int 1]), ("a", .obj [("c", .bool true)])], .null]

theorem fingerprint_of_copies_uneven :
    mergeAt {} 7 (copies 3 unevenObjects) = mergeAt {} 7 unevenObjects ∧
      fingerprint {} 2 (.arr (copies 16 unevenItems)) = fingerprint {} 2 (.arr unevenItems) := by
  refine ⟨(fingerprint_of_copies {} 7 (by decide)).1 unevenObjects ?_,
    (fingerprint_of_copies {} 2 (by decide)).2 unevenItems ?_ (by decide)⟩
  · simp [unevenObjects, Json.WellFormed, Json.EntriesWellFormed, Json.ListWellFormed,
      Entries.Distinct,
      Entries.keys]
  · simp [unevenItems, Json.WellFormed, Json.EntriesWellFormed, Json.ListWellFormed,
      Entries.Distinct,
      Entries.keys]

end Shape

end JsonSelection
