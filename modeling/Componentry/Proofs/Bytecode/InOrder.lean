import Componentry.Bytecode.Chunk
import Mathlib.Data.List.Basic

/-!
# Expected instructions in order

Code is checked for instructions that are expected in it, in order but not necessarily one after the
other. The check is a single pass that takes every expected instruction where it is first met.
Nothing is lost by that: whichever way the expected instructions, or the first few of them, can be
found in the code, the pass finds as many. So the check succeeds exactly if the expected
instructions are a subsequence of the decoded ones, and what it misses otherwise begins with the
first expected instruction that cannot be found behind the earlier ones.

## Main definitions

* `Chunk.IsLongestFound` — the longest part of the expected sequence, from its beginning, that can
  be found in order

## Main results

* `Chunk.IsLongestFound.strike`, `Chunk.IsLongestFound.skip` — what one step of the pass does to
  this part
* `Chunk.exists_isLongestFound` — the pass leaves what comes behind this part
* `Chunk.unmatched_eq_nil_iff` — the pass leaves nothing exactly if the whole sequence can be found
  in order
* `Chunk.missing_exact` — the check of code for expected instructions, and what it reports
-/

namespace Componentry

namespace Chunk

section Pass

variable {α : Type} {actual expected found : List α} {a e : α}

/-- Of the prefixes of an expected sequence that are subsequences of the actual one, `found` is the
longest. -/
structure IsLongestFound (actual expected found : List α) : Prop where
  initial : found <+: expected
  inOrder : found.Sublist actual
  longest : ∀ p, p <+: expected → p.Sublist actual → p.length ≤ found.length

namespace IsLongestFound

/-- Nothing is found in an empty sequence. -/
theorem nil_left (expected : List α) : IsLongestFound [] expected [] where
  initial := List.nil_prefix
  inOrder := .slnil
  longest _ _ inside := inside.length_le

/-- Where nothing is expected, nothing is found. -/
theorem nil_right (actual : List α) : IsLongestFound actual [] [] where
  initial := List.nil_prefix
  inOrder := List.nil_sublist actual
  longest _ begins _ := begins.length_le

/-- If the next expected element is met, nothing is lost by taking it there. -/
theorem strike (h : IsLongestFound actual expected found) :
    IsLongestFound (e :: actual) (e :: expected) (e :: found) where
  initial := List.cons_prefix_cons.mpr ⟨rfl, h.initial⟩
  inOrder := h.inOrder.cons_cons e
  longest p begins inside := by
    rcases List.prefix_cons_iff.mp begins with rfl | ⟨q, rfl, rest⟩
    · exact Nat.zero_le _
    · -- Even if `e` is taken from further on, the elements behind it are found in `actual`.
      have later : q.Sublist actual := List.cons_sublist_cons.mp inside
      exact Nat.succ_le_succ (h.longest q rest later)

/-- An element other than the next expected one is of no use. -/
theorem skip (other : e ≠ a) (h : IsLongestFound actual (e :: expected) found) :
    IsLongestFound (a :: actual) (e :: expected) found where
  initial := h.initial
  inOrder := h.inOrder.cons a
  longest p begins inside := by
    rcases List.prefix_cons_iff.mp begins with rfl | ⟨q, rfl, -⟩
    · exact Nat.zero_le _
    · exact h.longest _ begins (inside.of_cons_of_ne other)

/-- The whole sequence is found exactly if it is a subsequence. -/
theorem eq_iff (h : IsLongestFound actual expected found) :
    found = expected ↔ expected.Sublist actual := by
  constructor
  · rintro rfl
    exact h.inOrder
  · intro inside
    exact h.initial.eq_of_length_le (h.longest expected List.prefix_rfl inside)

end IsLongestFound

variable [DecidableEq α]

/-- The pass strikes out the longest part of the expected sequence, from its beginning, that can be
found in order. -/
theorem exists_isLongestFound (actual expected : List α) :
    ∃ found, IsLongestFound actual expected found ∧
      expected = found ++ unmatched actual expected := by
  -- Along the pass; what is still expected changes on the way.
  induction actual generalizing expected with
  | nil => exact ⟨[], .nil_left expected, rfl⟩
  | cons a actual ih =>
    cases expected with
    | nil => exact ⟨[], .nil_right _, rfl⟩
    | cons e expected =>
      by_cases met : a = e
      · obtain ⟨found, longest, split⟩ := ih expected
        refine ⟨e :: found, met ▸ longest.strike, ?_⟩
        rw [unmatched, if_pos met, List.cons_append, ← split]
      · obtain ⟨found, longest, split⟩ := ih (e :: expected)
        refine ⟨found, longest.skip (Ne.symm met), ?_⟩
        rw [unmatched, if_neg met, ← split]

/-- The pass leaves nothing exactly if the expected sequence is a subsequence of the actual one. -/
theorem unmatched_eq_nil_iff (actual expected : List α) :
    unmatched actual expected = [] ↔ expected.Sublist actual := by
  obtain ⟨found, longest, split⟩ := exists_isLongestFound actual expected
  calc unmatched actual expected = []
    _ ↔ found = found ++ unmatched actual expected := List.self_eq_append_right.symm
    _ ↔ found = expected := by rw [← split]
    _ ↔ expected.Sublist actual := longest.eq_iff

end Pass

/-- **The check for expected instructions is complete.** Nothing is missing exactly if the expected
instructions are a subsequence of the decoded ones. What is missing are the expected instructions
without the longest prefix of them that is a subsequence of the decoded ones, and these are the
instructions that the report names. -/
theorem missing_exact (c : Chunk) (expected : List Opcode) :
    (c.missing expected = [] ↔ expected.Sublist c.opcodes) ∧
    ∃ found, IsLongestFound c.opcodes expected found ∧
      c.missing expected = expected.drop found.length ∧
      c.missingText expected =
        "Missing opcodes in sequence.\nExpected to find: "
          ++ Text.quoteList ((expected.drop found.length).map Opcode.name)
          ++ "\nActual bytecode:  " ++ Text.quoteList (c.opcodes.map Opcode.name) := by
  refine ⟨unmatched_eq_nil_iff c.opcodes expected, ?_⟩
  obtain ⟨found, longest, split⟩ := exists_isLongestFound c.opcodes expected
  have left : c.missing expected = expected.drop found.length := by
    conv_rhs => rw [split]
    exact List.drop_left.symm
  refine ⟨found, longest, left, ?_⟩
  rw [← left]
  rfl

-- The operand of the first instruction looks like `pop`, but no `pop` is found; the second `dup` is
-- not looked for before it.
example :
    (empty.append 1
        [Opcode.getLocal.toByte, Opcode.pop.toByte, Opcode.dup.toByte, Opcode.dup.toByte]).missing
      [.getLocal, .dup, .pop, .dup] = [.pop, .dup] := by
  decide +kernel

end Chunk

end Componentry
